import Xmap.Config.Patterns

/-!
# Lemmas on the steps of `xm_fnmatch`

Each step keeps what is asked of the rest of the string, or fails where nothing matches.
-/

namespace Xmap.Config

open Xmap.Lib.Glob
open Xmap.Target (CStr)

section
variable {flags : FnmFlags} {c : Char} {pattern string p : CStr} {ts : List (Tok Char)}

/-! ## Without slashes -/

theorem NoSlash.suffix (h : NoSlash flags string) (hsuffix : p <:+ string) : NoSlash flags p :=
  fun hpath hmem => h hpath (hsuffix.subset hmem)

theorem NoSlash.not_isSlash (h : NoSlash flags string) : isSlash flags (deref string) = false := by
  cases hpath : flags.pathname with
  | false => simp [isSlash, hpath]
  | true =>
    cases string with
    | nil => simp [isSlash, deref]
    | cons c string =>
      have hne : c ≠ '/' := fun hc => h hpath (hc ▸ List.mem_cons_self)
      simp [isSlash, deref, hne]

theorem skipEscape_suffix (flags : FnmFlags) (pattern : CStr) : skipEscape flags pattern <:+ pattern := by
  unfold skipEscape
  split
  · exact List.tail_suffix pattern
  · exact List.suffix_refl pattern

theorem NoSlash.atSegmentEnd_iff (h : NoSlash flags pattern) : atSegmentEnd flags pattern = true ↔ pattern = [] := by
  simp [atSegmentEnd, (h.suffix (skipEscape_suffix flags pattern)).not_isSlash]

theorem NoSlash.atStringEnd_iff (h : NoSlash flags string) : atStringEnd flags string = true ↔ string = [] := by
  simp [atStringEnd, h.not_isSlash]

theorem NoSlash.segmentLength_eq (h : NoSlash flags string) : segmentLength flags string = string.length := by
  induction string with
  | nil => rfl
  | cons c string ih =>
    have hc : isSlash flags c = false := h.not_isSlash
    have hrest := ih (h.suffix (List.suffix_cons c string))
    unfold segmentLength at hrest ⊢
    rw [List.takeWhile_cons_of_pos (by simp [hc]), List.length_cons, hrest, List.length_cons]

/-! ## Rests of a pattern -/

theorem classItem_suffix {r : ClassItem × CStr} (h : classItem flags pattern = some r) : r.2 <:+ pattern := by
  cases pattern with
  | nil => cases h
  | cons start rest =>
    rw [classItem] at h
    refine List.IsSuffix.trans ?_ (List.suffix_cons start rest)
    split at h
    · split at h
      · cases h
      · obtain rfl := Option.some.inj h
        exact (List.tail_suffix _).trans ((skipEscape_suffix flags rest.tail).trans (List.tail_suffix rest))
    · obtain rfl := Option.some.inj h
      exact List.suffix_refl rest

theorem classItems_suffix {r : List ClassItem × CStr} (h : classItems flags pattern = some r) : r.2 <:+ pattern := by
  fun_induction classItems flags pattern generalizing r with
  | case1 => cases h
  | case2 pattern =>
    obtain rfl := Option.some.inj h
    exact List.tail_suffix pattern
  | case3 => cases h
  | case4 => cases h
  | case5 pattern _ _ _ i hitem ih =>
    obtain ⟨q, hq, rfl⟩ := Option.map_eq_some_iff.mp h
    exact (ih hq).trans ((classItem_suffix hitem).trans (skipEscape_suffix flags pattern))

theorem classBody_suffix {r : List ClassItem × CStr} (h : classBody flags pattern = some r) : r.2 <:+ pattern := by
  unfold classBody at h
  split at h
  · obtain ⟨i, hi, hrest⟩ := Option.bind_eq_some_iff.mp h
    obtain ⟨q, hq, rfl⟩ := Option.map_eq_some_iff.mp hrest
    exact (classItems_suffix hq).trans (classItem_suffix hi)
  · exact classItems_suffix h

theorem bracketSet_suffix {r : (Char → Bool) × CStr} (h : bracketSet flags pattern = some r) : r.2 <:+ pattern := by
  obtain ⟨q, hq, rfl⟩ := Option.map_eq_some_iff.mp h
  refine (classBody_suffix hq).trans ?_
  split
  · exact List.tail_suffix pattern
  · exact List.suffix_refl pattern

theorem firstSet_suffix (flags : FnmFlags) (pattern : CStr) : (firstSet flags pattern).2 <:+ pattern := by
  have htail : pattern.tail <:+ pattern := List.tail_suffix pattern
  unfold firstSet
  split
  · cases hset : bracketSet flags pattern.tail with
    | none => exact htail
    | some r => exact (bracketSet_suffix hset).trans htail
  · split
    · exact htail
    · split
      · exact (List.tail_suffix pattern.tail).trans htail
      · exact htail

/-! ## Letters -/

/-- `fnmatch_ch` compares a letter with the set that the pattern begins with, and passes both. -/
theorem fnmatchCh_eq (hpattern : NoSlash flags pattern) (hstring : NoSlash flags (c :: string)) (hne : pattern ≠ []) :
    fnmatchCh flags pattern (c :: string) =
      (result ((firstSet flags pattern).1 c), (firstSet flags pattern).2, string) := by
  have hc : isSlash flags c = false := hstring.not_isSlash
  have hliteral (p : CStr) (hp : NoSlash flags p) (hne : p ≠ []) :
      fnmatchLiteral flags p (c :: string) = (result (sameChar flags (deref p) c), p.tail, string) := by
    have hslash : ¬ (c :: string = [] ∨ p = [] ∨ isSlash flags (deref (c :: string)) ∨ isSlash flags (deref p)) := by
      simp [hne, hp.not_isSlash, show isSlash flags (deref (c :: string)) = false from hc]
    rw [fnmatchLiteral, if_neg hslash]
    rfl
  unfold fnmatchCh firstSet
  split
  · next hopen =>
    rw [show deref (c :: string) = c from rfl, bracket_eq]
    cases hset : bracketSet flags pattern.tail with
    | none => simp [hliteral pattern hpattern hne, hopen]
    | some r => simp
  · split
    · rw [if_neg (by simp [deref, hc])]
      rfl
    · split
      · next hescape => exact hliteral _ (hpattern.suffix (List.tail_suffix pattern)) hescape.2.2
      · exact hliteral pattern hpattern hne

theorem result_eq_zero {hit : Bool} : result hit = 0 ↔ hit = true := by
  cases hit <;> simp [result, XM_FNM_NOMATCH]

/-! ## The equations of `tokens` -/

theorem tokens_nil (flags : FnmFlags) : tokens flags [] = [] := by
  rw [tokens, dif_pos rfl]

theorem tokens_star (hstar : deref pattern = '*') : tokens flags pattern = .star :: tokens flags pattern.tail := by
  rw [tokens, dif_neg (ne_nil_of_deref hstar (by decide)), if_pos hstar]

theorem tokens_one (hne : pattern ≠ []) (hstar : deref pattern ≠ '*') :
    tokens flags pattern = .one (firstSet flags pattern).1 :: tokens flags (firstSet flags pattern).2 := by
  rw [tokens, dif_neg hne, if_neg hstar]

theorem tokens_any (hany : deref pattern = '?') :
    tokens flags pattern = .one (fun _ => true) :: tokens flags pattern.tail := by
  rw [tokens_one (ne_nil_of_deref hany (by decide)) (by rw [hany]; decide)]
  simp [firstSet, hany]

theorem tokens_eq_star (h : tokens flags pattern = .star :: ts) : deref pattern = '*' := by
  by_contra hstar
  by_cases hne : pattern = []
  · rw [hne, tokens_nil] at h
    cases h
  · rw [tokens_one hne hstar] at h
    cases h

theorem tokens_eq_one {accepts : Char → Bool} (h : tokens flags pattern = .one accepts :: ts) : pattern ≠ [] ∧
    deref pattern ≠ '*' ∧ (firstSet flags pattern).1 = accepts ∧ tokens flags (firstSet flags pattern).2 = ts := by
  have hne : pattern ≠ [] := by
    rintro rfl
    rw [tokens_nil] at h
    cases h
  have hstar : deref pattern ≠ '*' := by
    intro hstar
    rw [tokens_star hstar] at h
    cases h
  rw [tokens_one hne hstar] at h
  cases h
  exact ⟨hne, hstar, rfl, rfl⟩

/-! ## Groups -/

theorem skipWild_spec (hstring : NoSlash flags string) :
    (∀ r, skipWild flags pattern string = some r → (Matches (tokens flags pattern) string ↔
      if r.1 then Matches (.star :: tokens flags r.2.1) r.2.2 else Matches (tokens flags r.2.1) r.2.2) ∧
        (Matches (.star :: tokens flags pattern) string ↔ Matches (.star :: tokens flags r.2.1) r.2.2) ∧
          r.2.1 <:+ pattern ∧ r.2.2 <:+ string) ∧
      (skipWild flags pattern string = none →
        ¬ Matches (tokens flags pattern) string ∧ ¬ Matches (.star :: tokens flags pattern) string) := by
  fun_induction skipWild flags pattern string with
  | case1 string pattern ih =>
    obtain ⟨hsome, hnone⟩ := ih hstring
    rw [tokens_star rfl, List.tail_cons]
    constructor
    · intro r h
      obtain ⟨r', hr', rfl⟩ := Option.map_eq_some_iff.mp h
      obtain ⟨-, hstar, hp, hs⟩ := hsome r' hr'
      exact ⟨by simpa using hstar, matches_star_star.trans hstar, hp.trans (List.suffix_cons _ _), hs⟩
    · intro h
      have hno := (hnone (Option.map_eq_none_iff.mp h)).2
      exact ⟨hno, fun hm => hno (matches_star_star.mp hm)⟩
  | case2 string pattern hend =>
    obtain rfl := hstring.atStringEnd_iff.mp hend
    rw [tokens_any rfl]
    constructor
    · intro r h
      cases h
    · intro h
      exact ⟨not_matches_one_nil, not_matches_star_one_nil⟩
  | case3 string pattern hend ih =>
    rw [hstring.atStringEnd_iff] at hend
    obtain ⟨c, string, rfl⟩ := List.exists_cons_of_ne_nil hend
    obtain ⟨hsome, hnone⟩ := ih (hstring.suffix (List.suffix_cons c string))
    rw [tokens_any rfl, List.tail_cons, matches_one_cons, matches_star_any fun _ => rfl]
    constructor
    · intro r h
      obtain ⟨hplain, hstar, hp, hs⟩ := hsome r h
      exact ⟨by simpa using hplain, hstar, hp.trans (List.suffix_cons _ _), hs.trans (List.suffix_cons _ _)⟩
    · intro h
      obtain ⟨hplain, hstar⟩ := hnone h
      exact ⟨fun hm => hplain hm.2, hstar⟩
  | case4 pattern string =>
    refine ⟨fun r h => ?_, fun h => by cases h⟩
    obtain rfl := Option.some.inj h
    exact ⟨by simp, Iff.rfl, List.suffix_refl _, List.suffix_refl _⟩

/-! ## Letters between stars -/

theorem matchFixed_spec (hpattern : NoSlash flags pattern) (hstring : NoSlash flags string) :
    (∀ r, matchFixed flags pattern string = some r →
      (Matches (tokens flags pattern) string ↔ Matches (tokens flags r.1) r.2) ∧ r.1 <:+ pattern ∧ r.2 <:+ string) ∧
      (matchFixed flags pattern string = none → ¬ Matches (tokens flags pattern) string) := by
  fun_induction matchFixed flags pattern string with
  | case1 pattern string =>
    refine ⟨fun r h => ?_, fun h => by cases h⟩
    obtain rfl := Option.some.inj h
    exact ⟨Iff.rfl, List.suffix_refl _, List.suffix_refl _⟩
  | case2 pattern string hgo hzero ih =>
    simp only [not_or, hpattern.atSegmentEnd_iff, hstring.atStringEnd_iff] at hgo
    obtain ⟨hne, hstar, hne'⟩ := hgo
    obtain ⟨c, string, rfl⟩ := List.exists_cons_of_ne_nil hne
    rw [fnmatchCh_eq hpattern hstring hne'] at hzero ih ⊢
    obtain ⟨hsome, hnone⟩ :=
      ih (hpattern.suffix (firstSet_suffix flags pattern)) (hstring.suffix (List.suffix_cons _ _))
    rw [tokens_one hne' hstar, matches_one_cons, and_iff_right (result_eq_zero.mp hzero)]
    constructor
    · intro r h
      obtain ⟨hiff, hp, hs⟩ := hsome r h
      exact ⟨hiff, hp.trans (firstSet_suffix flags pattern), hs.trans (List.suffix_cons _ _)⟩
    · exact hnone
  | case3 pattern string hgo hzero =>
    simp only [not_or, hpattern.atSegmentEnd_iff, hstring.atStringEnd_iff] at hgo
    obtain ⟨hne, hstar, hne'⟩ := hgo
    obtain ⟨c, string, rfl⟩ := List.exists_cons_of_ne_nil hne
    rw [fnmatchCh_eq hpattern hstring hne', result_eq_zero] at hzero
    rw [tokens_one hne' hstar, matches_one_cons]
    constructor
    · intro r h
      cases h
    · intro h hm
      exact hzero hm.1

/-- The sets that `countFixed` counts, and what is behind them. -/
theorem countFixed_spec (hpattern : NoSlash flags pattern) :
    ∃ (sets : List (Char → Bool)) (ts : List (Tok Char)), tokens flags pattern = sets.map Tok.one ++ ts ∧
      sets.length = (countFixed flags pattern).1 ∧
      if (countFixed flags pattern).2 then ts = [] else ∃ ts', ts = .star :: ts' := by
  fun_induction countFixed flags pattern with
  | case1 pattern hend =>
    obtain rfl := hpattern.atSegmentEnd_iff.mp hend
    exact ⟨[], [], tokens_nil flags, rfl, by simp⟩
  | case2 pattern hend hstar => exact ⟨[], _, tokens_star hstar, rfl, by simp⟩
  | case3 pattern hend hstar next ih =>
    rw [hpattern.atSegmentEnd_iff] at hend
    have hnext : next = (firstSet flags pattern).2 := by
      -- `fnmatch_ch` counts a bracket expression with a blank for the letter
      have hblank : NoSlash flags [' '] := fun _ => by decide
      have hbracket := fnmatchCh_eq hpattern hblank hend
      dsimp only [next]
      split
      · next hescape => simp [firstSet, hescape]
      · next hescape =>
        split
        · rw [hbracket]
        · next hopen =>
          rw [firstSet, if_neg hopen]
          split <;> rfl
    obtain ⟨sets, ts, htokens, hlength, hts⟩ := ih (hnext ▸ hpattern.suffix (firstSet_suffix flags pattern))
    refine ⟨(firstSet flags pattern).1 :: sets, ts, ?_, by rw [List.length_cons, hlength], hts⟩
    rw [tokens_one hend hstar, ← hnext, htokens]
    rfl

/-- Where enough letters are left, the sets up to the next star are compared with the first of them. -/
theorem matchFixed_ones {sets : List (Char → Bool)} (hpattern : NoSlash flags pattern)
    (hstring : NoSlash flags string)
    (htokens : tokens flags pattern = sets.map Tok.one ++ .star :: ts) (hlength : sets.length ≤ string.length)
    {r : CStr × CStr} (h : matchFixed flags pattern string = some r) :
    tokens flags r.1 = .star :: ts ∧ r.2 = string.drop sets.length ∧
      Matches (sets.map Tok.one) (string.take sets.length) := by
  induction sets generalizing pattern string with
  | nil =>
    rw [matchFixed, if_pos (.inr (.inl (tokens_eq_star htokens)))] at h
    obtain rfl := Option.some.inj h
    exact ⟨htokens, rfl, .nil⟩
  | cons accepts sets ih =>
    obtain ⟨hne, hstar, rfl, hrest⟩ := tokens_eq_one htokens
    obtain ⟨c, string, rfl⟩ : ∃ c s, string = c :: s := List.exists_cons_of_length_pos (by
      rw [List.length_cons] at hlength
      omega)
    rw [matchFixed, if_neg (by simp [hstar, hpattern.atSegmentEnd_iff, hstring.atStringEnd_iff, hne]),
      fnmatchCh_eq hpattern hstring hne] at h
    split at h
    · next hzero =>
      rw [List.length_cons, List.length_cons, Nat.add_le_add_iff_right] at hlength
      obtain ⟨hts, hr, hm⟩ := ih (hpattern.suffix (firstSet_suffix flags pattern))
        (hstring.suffix (List.suffix_cons c string)) hrest hlength h
      exact ⟨hts, hr, .one (result_eq_zero.mp hzero) hm⟩
    · cases h

/-- The first place where the letters up to the next star match is as good as any. -/
theorem first_place {sets : List (Char → Bool)} (hpattern : NoSlash flags pattern) (hstring : NoSlash flags string)
    (htokens : tokens flags pattern = sets.map Tok.one ++ .star :: ts) (hlength : sets.length ≤ string.length)
    {r : CStr × CStr} (h : matchFixed flags pattern string = some r) :
    (Matches (.star :: tokens flags pattern) string ↔ Matches (tokens flags r.1) r.2) ∧ r.1 <:+ pattern ∧
      r.2 <:+ string := by
  obtain ⟨hts, hr, hfirst⟩ := matchFixed_ones hpattern hstring htokens hlength h
  refine ⟨?_, ((matchFixed_spec hpattern hstring).1 r h).2⟩
  rw [htokens, hts, hr]
  exact matches_star_ones_star hfirst hlength

theorem matchWild_spec {sets : List (Char → Bool)} (hpattern : NoSlash flags pattern) (hstring : NoSlash flags string)
    (htokens : tokens flags pattern = sets.map Tok.one ++ .star :: ts) (hlength : sets.length ≤ string.length) :
    (∀ r, matchWild flags pattern sets.length string = some r →
      (Matches (.star :: tokens flags pattern) string ↔ Matches (tokens flags r.1) r.2) ∧
        r.1 <:+ pattern ∧ r.2 <:+ string) ∧
      (matchWild flags pattern sets.length string = none → ¬ Matches (.star :: tokens flags pattern) string) := by
  induction string with
  | nil =>
    rw [matchWild]
    cases hfixed : matchFixed flags pattern [] with
    | none =>
      refine ⟨fun r h => by simp at h, fun _ => ?_⟩
      rw [matches_star_nil]
      exact (matchFixed_spec hpattern hstring).2 hfixed
    | some r =>
      refine ⟨fun r' h => ?_, fun h => by simp at h⟩
      obtain rfl := Option.some.inj h
      exact first_place hpattern hstring htokens hlength hfixed
  | cons c string ih =>
    have hrest : NoSlash flags string := hstring.suffix (List.suffix_cons c string)
    rw [matchWild]
    cases hfixed : matchFixed flags pattern (c :: string) with
    | none =>
      have hno : ¬ Matches (tokens flags pattern) (c :: string) := (matchFixed_spec hpattern hstring).2 hfixed
      rw [matches_star_cons, or_iff_right hno]
      dsimp only
      split
      · next hshort =>
        -- the search ends early: no later place leaves a letter for each set
        refine ⟨fun r h => by simp at h, fun _ hm => ?_⟩
        rw [htokens] at hm
        rw [hrest.segmentLength_eq] at hshort
        exact absurd (length_le_of_matches_star hm) (Nat.not_le.mpr hshort)
      · next hshort =>
        rw [hrest.segmentLength_eq, Nat.not_lt] at hshort
        obtain ⟨hsome, hnone⟩ := ih hrest hshort
        refine ⟨fun r h => ?_, hnone⟩
        obtain ⟨hiff, hp, hs⟩ := hsome r h
        exact ⟨hiff, hp, hs.trans (List.suffix_cons c string)⟩
    | some r =>
      refine ⟨fun r' h => ?_, fun h => by simp at h⟩
      obtain rfl := Option.some.inj h
      exact first_place hpattern hstring htokens hlength hfixed

/-- What a group and the letters behind it ask of the string. -/
def GroupMatches (flags : FnmFlags) (wild : Bool) (pattern string : CStr) : Prop :=
  if wild then Matches (.star :: tokens flags pattern) string else Matches (tokens flags pattern) string

theorem matchGroup_spec {wild : Bool} (hpattern : NoSlash flags pattern) (hstring : NoSlash flags string) :
    (∀ r, matchGroup flags wild pattern string = some r →
      (GroupMatches flags wild pattern string ↔ Matches (tokens flags r.1) r.2) ∧ r.1 <:+ pattern ∧ r.2 <:+ string) ∧
      (matchGroup flags wild pattern string = none → ¬ GroupMatches flags wild pattern string) := by
  cases wild with
  | false => exact matchFixed_spec hpattern hstring
  | true =>
    obtain ⟨sets, ts, htokens, hlength, hts⟩ := countFixed_spec hpattern
    simp only [GroupMatches, matchGroup, if_true, hstring.segmentLength_eq, ← hlength]
    by_cases hshort : string.length < sets.length
    · rw [if_pos hshort]
      refine ⟨fun r h => by simp at h, fun _ hm => ?_⟩
      rw [htokens] at hm
      exact absurd (length_le_of_matches_star hm) (Nat.not_le.mpr hshort)
    · rw [if_neg hshort]
      rw [Nat.not_lt] at hshort
      by_cases hend : (countFixed flags pattern).2
      · rw [if_pos hend]
        rw [if_pos hend] at hts
        rw [hts, List.append_nil] at htokens
        -- the pattern ends without a further star: only its last letters can match
        have hdrop : string.drop (string.length - sets.length) <:+ string := List.drop_suffix _ _
        have hiff : Matches (.star :: tokens flags pattern) string ↔
            Matches (tokens flags pattern) (string.drop (string.length - sets.length)) := by
          rw [htokens, matches_star_ones, and_iff_right hshort]
        obtain ⟨hsome, hnone⟩ := matchFixed_spec hpattern (hstring.suffix hdrop)
        rw [hiff]
        refine ⟨fun r h => ?_, hnone⟩
        obtain ⟨hr, hp, hs⟩ := hsome r h
        exact ⟨hr, hp, hs.trans hdrop⟩
      · rw [if_neg hend]
        rw [if_neg hend] at hts
        obtain ⟨ts', rfl⟩ := hts
        exact matchWild_spec hpattern hstring htokens hshort

end

end Xmap.Config
