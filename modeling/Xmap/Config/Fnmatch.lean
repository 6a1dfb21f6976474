import Xmap.Target.Wblist

/-!
# Wildcards (`xm_fnmatch.c`)

A pointer into a string is the rest of the string behind it.
-/

namespace Xmap.Config

open Xmap.Target (CStr)

/-- The flags of `xm_fnmatch`. -/
structure FnmFlags where
  noescape : Bool
  pathname : Bool
  period : Bool
  caseBlind : Bool

def FnmFlags.escape (flags : FnmFlags) : Bool := !flags.noescape

def XM_FNM_NOMATCH : Nat := 1

/-- The value of a `char`, which is signed. -/
def charValue (c : Char) : Int := ((c.toNat : Int) + 128) % 256 - 128

/-- The letter that a pointer points to, or the null character behind the string. -/
def deref (s : CStr) : Char := s.headD (Char.ofNat 0)

def isSlash (flags : FnmFlags) (c : Char) : Bool := flags.pathname && c == '/'

/-- A letter of the pattern and one of the string. -/
def sameChar (flags : FnmFlags) (p s : Char) : Bool :=
  s == p || flags.caseBlind && (s.isUpper || p.isUpper) && s.toLower == p.toLower

def betweenChars (flags : FnmFlags) (low high s : Char) : Bool :=
  decide (charValue low ≤ charValue s) && decide (charValue s ≤ charValue high) ||
    flags.caseBlind && (s.isUpper || low.isUpper || high.isUpper) &&
      decide (charValue low.toLower ≤ charValue s.toLower) && decide (charValue s.toLower ≤ charValue high.toLower)

/-! ## Letters (`fnmatch_ch`) -/

/-- A backslash is passed where backslashes escape. -/
def skipEscape (flags : FnmFlags) (pattern : CStr) : CStr :=
  if flags.escape && deref pattern == '\\' then pattern.tail else pattern

theorem length_skipEscape (flags : FnmFlags) (pattern : CStr) :
    (skipEscape flags pattern).length ≤ pattern.length := by
  unfold skipEscape
  split
  · rw [List.length_tail]
    exact Nat.sub_le _ _
  · exact le_rfl

/-- An element of a bracket expression, with whether it has the letter. There is none where the expression is not
closed. -/
def bracketElem (flags : FnmFlags) (s : Char) : CStr → Option (Bool × CStr)
  | [] => none
  | start :: rest =>
    if deref rest = '-' ∧ deref rest.tail ≠ ']' then
      let high := skipEscape flags rest.tail
      if high = [] ∨ isSlash flags (deref high) then none
      else some (betweenChars flags start (deref high) s, high.tail)
    else some (sameChar flags start s, rest)

theorem bracketElem_length {flags : FnmFlags} {s : Char} {pattern : CStr} {r : Bool × CStr}
    (h : bracketElem flags s pattern = some r) : r.2.length < pattern.length := by
  cases pattern with
  | nil => cases h
  | cons start rest =>
    rw [bracketElem] at h
    split at h
    · dsimp only at h
      split at h
      · cases h
      · obtain rfl := Option.some.inj h
        have hle := length_skipEscape flags rest.tail
        simp only [List.length_tail, List.length_cons] at hle ⊢
        omega
    · obtain rfl := Option.some.inj h
      exact Nat.lt_succ_self _

/-- The elements up to the closing bracket, with whether one of them, or one before, has the letter. -/
def bracketLoop (flags : FnmFlags) (s : Char) (hit : Bool) (pattern : CStr) : Option (Bool × CStr) :=
  if pattern = [] then none
  else if deref pattern = ']' then some (hit, pattern.tail)
  else if skipEscape flags pattern = [] ∨ isSlash flags (deref (skipEscape flags pattern)) then none
  else
    match _h : bracketElem flags s (skipEscape flags pattern) with
    | none => none
    | some r => bracketLoop flags s (hit || r.1) r.2
termination_by pattern.length
decreasing_by exact (bracketElem_length _h).trans_le (length_skipEscape flags pattern)

/-- A closing bracket that comes first is a letter. -/
def bracketBody (flags : FnmFlags) (s : Char) (pattern : CStr) : Option (Bool × CStr) :=
  if deref pattern = ']' then (bracketElem flags s pattern).bind fun r => bracketLoop flags s r.1 r.2
  else bracketLoop flags s false pattern

def isNegated (pattern : CStr) : Bool := deref pattern == '!' || deref pattern == '^'

/-- A bracket expression behind its bracket. -/
def bracket (flags : FnmFlags) (s : Char) (pattern : CStr) : Option (Bool × CStr) :=
  (bracketBody flags s (if isNegated pattern then pattern.tail else pattern)).map fun r =>
    (r.1 != isNegated pattern, r.2)

def result (hit : Bool) : Nat := if hit then 0 else XM_FNM_NOMATCH

/-- A slash and the end are not passed. -/
def fnmatchLiteral (flags : FnmFlags) (pattern string : CStr) : Nat × CStr × CStr :=
  let rc := result (sameChar flags (deref pattern) (deref string))
  if string = [] ∨ pattern = [] ∨ isSlash flags (deref string) ∨ isSlash flags (deref pattern) then
    (rc, pattern, string)
  else (rc, pattern.tail, string.tail)

def fnmatchCh (flags : FnmFlags) (pattern string : CStr) : Nat × CStr × CStr :=
  if deref pattern = '[' then
    match bracket flags (deref string) pattern.tail with
    | some (hit, rest) => (result hit, rest, string.tail)
    | none => fnmatchLiteral flags pattern string
  else if deref pattern = '?' then
    if string = [] ∨ isSlash flags (deref string) then (XM_FNM_NOMATCH, pattern, string)
    else (0, pattern.tail, string.tail)
  else if flags.escape ∧ deref pattern = '\\' ∧ pattern.tail ≠ [] then fnmatchLiteral flags pattern.tail string
  else fnmatchLiteral flags pattern string

/-! ## Segments -/

/-- The pattern of a segment ends: at the end, or at a slash where slashes match only slashes. -/
def atSegmentEnd (flags : FnmFlags) (pattern : CStr) : Bool :=
  pattern.isEmpty || isSlash flags (deref (skipEscape flags pattern))

/-- The string is at `strendseg`. -/
def atStringEnd (flags : FnmFlags) (string : CStr) : Bool := string.isEmpty || isSlash flags (deref string)

/-- The letters up to `strendseg`. -/
def segmentLength (flags : FnmFlags) (string : CStr) : Nat := (string.takeWhile fun c => !isSlash flags c).length

theorem bracketLoop_length {flags : FnmFlags} {s : Char} {hit : Bool} {pattern : CStr} {r : Bool × CStr}
    (h : bracketLoop flags s hit pattern = some r) : r.2.length < pattern.length := by
  fun_induction bracketLoop flags s hit pattern with
  | case1 => cases h
  | case2 hit pattern hne =>
    obtain rfl := Option.some.inj h
    rw [List.length_tail]
    exact Nat.sub_lt (List.length_pos_of_ne_nil hne) Nat.one_pos
  | case3 => cases h
  | case4 => cases h
  | case5 hit pattern _ _ _ r' helem ih =>
    exact (ih h).trans ((bracketElem_length helem).trans_le (length_skipEscape flags pattern))

theorem bracketBody_length {flags : FnmFlags} {s : Char} {pattern : CStr} {r : Bool × CStr}
    (h : bracketBody flags s pattern = some r) : r.2.length < pattern.length := by
  unfold bracketBody at h
  split at h
  · obtain ⟨e, helem, hloop⟩ := Option.bind_eq_some_iff.mp h
    exact (bracketLoop_length hloop).trans (bracketElem_length helem)
  · exact bracketLoop_length h

theorem bracket_length {flags : FnmFlags} {s : Char} {pattern : CStr} {r : Bool × CStr}
    (h : bracket flags s pattern = some r) : r.2.length < pattern.length := by
  obtain ⟨r', hbody, rfl⟩ := Option.map_eq_some_iff.mp h
  refine (bracketBody_length hbody).trans_le ?_
  split
  · rw [List.length_tail]
    exact Nat.sub_le _ _
  · exact le_rfl

/-- Inside of a segment `fnmatch_ch` passes a letter of the string, and some of the pattern. -/
theorem fnmatchCh_passes {flags : FnmFlags} {pattern string : CStr} (hstring : ¬ atStringEnd flags string)
    (hend : ¬ atSegmentEnd flags pattern) :
    (fnmatchCh flags pattern string).2.2 = string.tail ∧
      (fnmatchCh flags pattern string).2.1.length < pattern.length := by
  have hpattern : pattern ≠ [] := by
    rintro rfl
    exact hend rfl
  have htail : pattern.tail.length < pattern.length := by
    rw [List.length_tail]
    exact Nat.sub_lt (List.length_pos_of_ne_nil hpattern) Nat.one_pos
  obtain ⟨hstring, hslash⟩ : string ≠ [] ∧ ¬ isSlash flags (deref string) := by
    simpa [atStringEnd] using hstring
  have hliteral (p : CStr) (hp : p ≠ []) (hslash' : ¬ isSlash flags (deref p)) :
      (fnmatchLiteral flags p string).2 = (p.tail, string.tail) := by
    simp [fnmatchLiteral, hstring, hp, hslash, hslash']
  have hplain : (fnmatchLiteral flags pattern string).2 = (pattern.tail, string.tail) := by
    refine hliteral pattern hpattern fun hslash' => hend ?_
    have hsame : skipEscape flags pattern = pattern := by
      simp only [isSlash, Bool.and_eq_true, beq_iff_eq] at hslash'
      simp [skipEscape, hslash'.2]
    simp [atSegmentEnd, hsame, hslash']
  unfold fnmatchCh
  split
  · split
    · next hit rest hbracket => exact ⟨rfl, (bracket_length hbracket).trans htail⟩
    · rw [hplain]
      exact ⟨rfl, htail⟩
  · split
    · rw [if_neg (by simp [hstring, hslash])]
      exact ⟨rfl, htail⟩
    · split
      · next hescape =>
        have hskip : skipEscape flags pattern = pattern.tail := by simp [skipEscape, hescape.1, hescape.2.1]
        rw [hliteral _ hescape.2.2 fun hslash' => hend (by simp [atSegmentEnd, hskip, hslash'])]
        refine ⟨rfl, lt_of_le_of_lt ?_ htail⟩
        rw [List.length_tail]
        exact Nat.sub_le _ _
      · rw [hplain]
        exact ⟨rfl, htail⟩

/-! ## Groups -/

/-- A group of stars and question marks: whether it has a star, and what is behind it and behind the letters of its
question marks. -/
def skipWild (flags : FnmFlags) : CStr → CStr → Option (Bool × CStr × CStr)
  | '*' :: pattern, string => (skipWild flags pattern string).map fun r => (true, r.2)
  | '?' :: pattern, string => if atStringEnd flags string then none else skipWild flags pattern string.tail
  | pattern, string => some (false, pattern, string)

/-- The letters of the pattern up to the next star or the end of the segment, matched one by one. The rest is what is
left of both when the pattern gets there, or the string ends. -/
def matchFixed (flags : FnmFlags) (pattern string : CStr) : Option (CStr × CStr) :=
  if atStringEnd flags string ∨ deref pattern = '*' ∨ atSegmentEnd flags pattern then some (pattern, string)
  else if (fnmatchCh flags pattern string).1 = 0 then
    matchFixed flags (fnmatchCh flags pattern string).2.1 (fnmatchCh flags pattern string).2.2
  else none
termination_by pattern.length
decreasing_by
  rename_i h _
  simp only [not_or] at h
  exact (fnmatchCh_passes h.1 h.2.2).2

/-- How many letters the pattern has up to there, and whether it is the end of the segment. -/
def countFixed (flags : FnmFlags) (matchptr : CStr) : Nat × Bool :=
  if atSegmentEnd flags matchptr then (0, true)
  else if deref matchptr = '*' then (0, false)
  else
    let next :=
      if flags.escape ∧ deref matchptr = '\\' ∧ matchptr.tail ≠ [] then matchptr.tail.tail
      else if deref matchptr = '[' then (fnmatchCh flags matchptr [' ']).2.1
      else matchptr.tail
    ((countFixed flags next).1 + 1, (countFixed flags next).2)
termination_by matchptr.length
decreasing_by
  all_goals
    rename_i h _
    have hne : matchptr ≠ [] := by
      rintro rfl
      exact h rfl
    have htail : matchptr.tail.length < matchptr.length := by
      rw [List.length_tail]
      exact Nat.sub_lt (List.length_pos_of_ne_nil hne) Nat.one_pos
    split
    · refine lt_of_le_of_lt ?_ htail
      rw [List.length_tail]
      exact Nat.sub_le _ _
    · split
      · exact (fnmatchCh_passes (by simp [atStringEnd, deref, isSlash]) h).2
      · exact htail

/-- From one place after the other, as long as enough letters are left. -/
def matchWild (flags : FnmFlags) (mismatch : CStr) (matchlen : Nat) (string : CStr) : Option (CStr × CStr) :=
  match matchFixed flags mismatch string with
  | some r => some r
  | none =>
    match string with
    | [] => none
    | _ :: strstartseg =>
      if segmentLength flags strstartseg < matchlen then none else matchWild flags mismatch matchlen strstartseg

/-- What follows a group, with a star in it or not. The letters that end a segment are compared to its last ones. -/
def matchGroup (flags : FnmFlags) (wild : Bool) (pattern string : CStr) : Option (CStr × CStr) :=
  if wild then
    if segmentLength flags string < (countFixed flags pattern).1 then none
    else if (countFixed flags pattern).2 then
      matchFixed flags pattern (string.drop (segmentLength flags string - (countFixed flags pattern).1))
    else matchWild flags pattern (countFixed flags pattern).1 string
  else matchFixed flags pattern string

section
variable {flags : FnmFlags} {pattern string mismatch : CStr} {n : Nat} {wild : Bool}

theorem skipWild_length {r : Bool × CStr × CStr} (h : skipWild flags pattern string = some r) :
    r.2.1.length < pattern.length ∨ r = (false, pattern, string) ∧ deref pattern ≠ '*' := by
  fun_induction skipWild flags pattern string generalizing r with
  | case1 string pattern ih =>
    obtain ⟨r', hr', rfl⟩ := Option.map_eq_some_iff.mp h
    refine .inl (Nat.lt_succ_of_le ?_)
    rcases ih hr' with hlt | ⟨rfl, -⟩
    · exact hlt.le
    · exact le_rfl
  | case2 => cases h
  | case3 string pattern _ ih =>
    refine .inl (Nat.lt_succ_of_le ?_)
    rcases ih h with hlt | ⟨rfl, -⟩
    · exact hlt.le
    · exact le_rfl
  | case4 pattern string hstar _ =>
    obtain rfl := Option.some.inj h
    refine .inr ⟨rfl, ?_⟩
    cases pattern with
    | nil => decide
    | cons c pattern =>
      rintro rfl
      exact hstar pattern rfl

theorem matchFixed_length {r : CStr × CStr} (h : matchFixed flags pattern string = some r) :
    r.1.length < pattern.length ∨
      r = (pattern, string) ∧ (atStringEnd flags string ∨ deref pattern = '*' ∨ atSegmentEnd flags pattern) := by
  fun_induction matchFixed flags pattern string with
  | case1 pattern string hstop =>
    obtain rfl := Option.some.inj h
    exact .inr ⟨rfl, hstop⟩
  | case2 pattern string hgo _ ih =>
    simp only [not_or] at hgo
    have hlt := (fnmatchCh_passes hgo.1 hgo.2.2).2
    refine .inl ?_
    rcases ih h with hless | ⟨rfl, -⟩
    · exact hless.trans hlt
    · exact hlt
  | case3 => cases h

theorem matchFixed_length_le {r : CStr × CStr} (h : matchFixed flags pattern string = some r) :
    r.1.length ≤ pattern.length := by
  rcases matchFixed_length h with hlt | ⟨rfl, -⟩
  · exact hlt.le
  · exact le_rfl

theorem matchWild_length {r : CStr × CStr} (h : matchWild flags mismatch n string = some r) :
    r.1.length ≤ mismatch.length := by
  induction string with
  | nil =>
    rw [matchWild] at h
    split at h
    · next r' hr' =>
      obtain rfl := Option.some.inj h
      exact matchFixed_length_le hr'
    · cases h
  | cons c string ih =>
    rw [matchWild] at h
    split at h
    · next r' hr' =>
      obtain rfl := Option.some.inj h
      exact matchFixed_length_le hr'
    · split at h
      · cases h
      · exact ih h

theorem matchGroup_length {r : CStr × CStr} (h : matchGroup flags wild pattern string = some r) :
    r.1.length ≤ pattern.length := by
  unfold matchGroup at h
  split at h
  · split at h
    · cases h
    · split at h
      · exact matchFixed_length_le h
      · exact matchWild_length h
  · exact matchFixed_length_le h

/-- A group and what follows it are not empty. -/
theorem group_length {w : Bool × CStr × CStr} {r : CStr × CStr}
    (hgo : ¬ (atSegmentEnd flags pattern ∨ atStringEnd flags string ∧ deref pattern ≠ '*'))
    (hw : skipWild flags pattern string = some w) (hr : matchGroup flags w.1 w.2.1 w.2.2 = some r) :
    r.1.length < pattern.length := by
  rcases skipWild_length hw with hlt | ⟨rfl, hstar⟩
  · exact (matchGroup_length hr).trans_lt hlt
  · rw [matchGroup, if_neg Bool.false_ne_true] at hr
    rcases matchFixed_length hr with hlt | ⟨-, hend | hstar' | hend⟩
    · exact hlt
    · exact absurd (.inr ⟨hend, hstar⟩) hgo
    · exact absurd hstar' hstar
    · exact absurd (.inl hend) hgo

end

/-! ## `xm_fnmatch` -/

/-- The groups of a segment. -/
def matchSegment (flags : FnmFlags) (pattern string : CStr) : Option (CStr × CStr) :=
  if atSegmentEnd flags pattern ∨ atStringEnd flags string ∧ deref pattern ≠ '*' then some (pattern, string)
  else
    match _hw : skipWild flags pattern string with
    | none => none
    | some w =>
      match _hr : matchGroup flags w.1 w.2.1 w.2.2 with
      | none => none
      | some r => matchSegment flags r.1 r.2
termination_by pattern.length
decreasing_by
  rename_i h
  exact group_length h _hw _hr

/-- A leading period is matched by a period. -/
def matchPeriod (flags : FnmFlags) (pattern string : CStr) : Option (CStr × CStr) :=
  if flags.period ∧ deref string = '.' then
    if deref pattern = '.' then some (pattern.tail, string.tail)
    else if flags.escape ∧ deref pattern = '\\' ∧ deref pattern.tail = '.' then some (pattern.tail.tail, string.tail)
    else none
  else some (pattern, string)

/-- A segment, and that both end with it. -/
def firstSegment (flags : FnmFlags) (pattern string : CStr) : Option (CStr × CStr) :=
  (matchPeriod flags pattern string).bind fun r =>
    (matchSegment flags r.1 r.2).bind fun r =>
      if atStringEnd flags r.2 ∧ atSegmentEnd flags r.1 then some r else none

/-- The slashes that begin the next segment. -/
def skipSlash (flags : FnmFlags) (pattern string : CStr) : CStr × CStr :=
  let pattern := if isSlash flags (deref (skipEscape flags pattern)) then skipEscape flags pattern else pattern
  if isSlash flags (deref pattern) ∧ isSlash flags (deref string) then (pattern.tail, string.tail)
  else (pattern, string)

section
variable {flags : FnmFlags} {pattern string : CStr} {r : CStr × CStr}

theorem length_tail_lt {s : CStr} (h : s ≠ []) : s.tail.length < s.length := by
  rw [List.length_tail]
  exact Nat.sub_lt (List.length_pos_of_ne_nil h) Nat.one_pos

theorem ne_nil_of_deref {s : CStr} {c : Char} (h : deref s = c) (hc : c ≠ Char.ofNat 0) : s ≠ [] := by
  rintro rfl
  exact hc h.symm

theorem matchSegment_length (h : matchSegment flags pattern string = some r) :
    r.1.length < pattern.length ∨ r = (pattern, string) := by
  fun_induction matchSegment flags pattern string with
  | case1 =>
    obtain rfl := Option.some.inj h
    exact .inr rfl
  | case2 => cases h
  | case3 => cases h
  | case4 pattern string hgo w hw r' hr' ih =>
    have hlt := group_length hgo hw hr'
    rcases ih h with hless | rfl
    · exact .inl (hless.trans hlt)
    · exact .inl hlt

theorem matchPeriod_length (h : matchPeriod flags pattern string = some r) :
    r.1.length < pattern.length ∨ r = (pattern, string) := by
  unfold matchPeriod at h
  split at h
  · split at h
    · next hdot =>
      obtain rfl := Option.some.inj h
      exact .inl (length_tail_lt (ne_nil_of_deref hdot (by decide)))
    · split at h
      · next hescape =>
        obtain rfl := Option.some.inj h
        have htail := length_tail_lt (ne_nil_of_deref hescape.2.1 (by decide))
        exact .inl ((length_tail_lt (ne_nil_of_deref hescape.2.2 (by decide))).trans htail)
      · cases h
  · exact .inr (Option.some.inj h).symm

theorem firstSegment_spec (h : firstSegment flags pattern string = some r) :
    (r.1.length < pattern.length ∨ r = (pattern, string)) ∧ atStringEnd flags r.2 ∧ atSegmentEnd flags r.1 := by
  obtain ⟨p, hp, h⟩ := Option.bind_eq_some_iff.mp h
  obtain ⟨q, hq, h⟩ := Option.bind_eq_some_iff.mp h
  split at h
  · next hend =>
    obtain rfl := Option.some.inj h
    refine ⟨?_, hend⟩
    rcases matchPeriod_length hp with hlt | rfl
    · rcases matchSegment_length hq with hlt' | rfl
      · exact .inl (hlt'.trans hlt)
      · exact .inl hlt
    · exact matchSegment_length hq
  · cases h

/-- A segment is not passed without some of the pattern. -/
theorem segments_length (hpattern : pattern ≠ []) (hstring : string ≠ [])
    (h : firstSegment flags (skipSlash flags pattern string).1 (skipSlash flags pattern string).2 = some r) :
    r.1.length < pattern.length := by
  obtain ⟨hlength, hend⟩ := firstSegment_spec h
  have hle := length_skipEscape flags pattern
  have hslash (p : CStr) (hp : isSlash flags (deref p)) : p ≠ [] := by
    simp only [isSlash, Bool.and_eq_true, beq_iff_eq] at hp
    exact ne_nil_of_deref hp.2 (by decide)
  unfold skipSlash at hlength
  by_cases hskip : isSlash flags (deref (skipEscape flags pattern))
  · simp only [hskip, if_true, true_and] at hlength
    split at hlength
    · have htail := length_tail_lt (hslash _ hskip)
      rcases hlength with hlt | rfl
      · exact hlt.trans (htail.trans_le hle)
      · exact htail.trans_le hle
    · next hno =>
      rcases hlength with hlt | rfl
      · exact hlt.trans_le hle
      · exact absurd hend.1 (by simp [atStringEnd, hstring, hno])
  · rw [if_neg hskip] at hlength
    dsimp only at hlength
    split at hlength
    · next hboth =>
      have htail := length_tail_lt (hslash _ hboth.1)
      rcases hlength with hlt | rfl
      · exact hlt.trans htail
      · exact htail
    · rcases hlength with hlt | rfl
      · exact hlt
      · exact absurd hend.2 (by simp [atSegmentEnd, hpattern, hskip])

end

/-- The loop over the segments, and that both strings end with it. -/
def matchSegments (flags : FnmFlags) (pattern string : CStr) : Bool :=
  if pattern = [] ∨ string = [] then pattern.isEmpty && string.isEmpty
  else
    match _h : firstSegment flags (skipSlash flags pattern string).1 (skipSlash flags pattern string).2 with
    | none => false
    | some r => matchSegments flags r.1 r.2
termination_by pattern.length
decreasing_by
  rename_i h
  simp only [not_or] at h
  exact segments_length h.1 h.2 _h

/-- A star at the start is matched with no string, too. -/
def xmFnmatch (flags : FnmFlags) (pattern string : CStr) : Nat :=
  if deref pattern = '*' then
    result ((firstSegment flags pattern string).elim false fun r => matchSegments flags r.1 r.2)
  else result (matchSegments flags pattern string)

/-- The loop of `xm_fnmatch_test`, with the number of open brackets. -/
def fnmatchTest (nesting : Nat) : CStr → Bool
  | [] => false
  | '?' :: _ | '*' :: _ => true
  | ['\\'] => false
  | '\\' :: _ :: pattern => fnmatchTest nesting pattern
  | '[' :: pattern => fnmatchTest (nesting + 1) pattern
  | ']' :: pattern => if nesting ≠ 0 then true else fnmatchTest nesting pattern
  | _ :: pattern => fnmatchTest nesting pattern

def xmFnmatchTest (pattern : CStr) : Bool := fnmatchTest 0 pattern

end Xmap.Config
