import Mathlib
import Xmap.Target.Lines

/-!
# Theorems on the reading of list files

Comments and words are looked for in each piece of at most 999 bytes, so a long line is more than one line.
-/

namespace Xmap.Target

/-- The first word of a line, before its comment. -/
def firstToken (line : CStr) : Option CStr :=
  let s := (line.takeWhile (· != '#')).dropWhile isSpace
  if s.isEmpty then none else some (s.takeWhile (!isSpace ·))

/-- What `init_from_file` passes to `init_from_string`. -/
def passedStrings (content : CStr) : List CStr := (fileLines content).filterMap lineEntry

/-- One word is passed for each line that has one, and each fits in `ip` with its null byte. -/
structure ReadsLines (content : CStr) : Prop where
  passed : passedStrings content = (lines content).filterMap firstToken
  length_lt : ∀ ip ∈ passedStrings content, ip.length < 256

/-- Behind the piece of a line where its first word or its comment starts, every piece is blank up to a comment of
its own. -/
def PiecesFit : List CStr → Prop
  | [] => True
  | p :: ps => if ∀ c ∈ p, isSpace c then PiecesFit ps else ∀ q ∈ ps, lineEntry q = none

/-- The word of the line fits, and it has no null byte. -/
def TokenFits (line : CStr) : Prop := ∀ ip ∈ firstToken line, Char.ofNat 0 ∉ ip ∧ ip.length < 256

/-! ## Words -/

section
variable {w s p : CStr} {c : Char}

/-- A character of a word. -/
def isToken (c : Char) : Bool := !isSpace c && c != '#'

theorem ne_hash_of_isSpace (h : isSpace c = true) : (c != '#') = true := by
  rw [bne_iff_ne]
  rintro rfl
  exact absurd h (by decide)

theorem ne_null_of_isSpace (h : isSpace c = true) : (c != Char.ofNat 0) = true := by
  rw [bne_iff_ne]
  rintro rfl
  exact absurd h (by decide)

theorem firstToken_spaces (hw : ∀ c ∈ w, isSpace c) (s : CStr) : firstToken (w ++ s) = firstToken s := by
  rw [firstToken, List.takeWhile_append_of_pos fun c hc => ne_hash_of_isSpace (hw c hc),
    List.dropWhile_append_of_pos hw, firstToken]

theorem firstToken_hash (s : CStr) : firstToken ('#' :: s) = none := rfl

theorem firstToken_of_isToken (hc : isToken c = true) (s : CStr) :
    firstToken (c :: s) = some ((c :: s).takeWhile isToken) := by
  obtain ⟨hspace, hhash⟩ := Bool.and_eq_true_iff.mp hc
  have hdrop : ((c :: s).takeWhile (· != '#')).dropWhile isSpace = (c :: s).takeWhile (· != '#') := by
    rw [List.takeWhile_cons, if_pos hhash, List.dropWhile_cons, if_neg (by simpa using hspace)]
  have hne : ((c :: s).takeWhile (· != '#')).isEmpty = false := by
    rw [List.takeWhile_cons, if_pos hhash]
    rfl
  rw [firstToken, hdrop, hne, List.takeWhile_takeWhile]
  simp only [Bool.false_eq_true, if_false, Option.some.injEq]
  exact congrArg (List.takeWhile · (c :: s)) (funext fun d => Bool.eq_iff_iff.mpr (by simp [isToken]))

/-- The entry of a piece is its first word up to a null byte, cut to 256 bytes. -/
theorem lineEntry_eq (p : CStr) :
    lineEntry p = (firstToken (p.takeWhile (· != Char.ofNat 0))).map (List.take 256) := by
  rw [lineEntry, firstToken]
  split <;> rfl

theorem lineEntry_spaces (hw : ∀ c ∈ w, isSpace c) (s : CStr) : lineEntry (w ++ s) = lineEntry s := by
  rw [lineEntry_eq, List.takeWhile_append_of_pos fun c hc => ne_null_of_isSpace (hw c hc), firstToken_spaces hw,
    lineEntry_eq]

theorem lineEntry_of_spaces (hw : ∀ c ∈ w, isSpace c) : lineEntry w = none := by
  rw [← List.append_nil w, lineEntry_spaces hw]
  rfl

theorem lineEntry_of_isToken (hc : isToken c = true) (hnull : c ≠ Char.ofNat 0) (s : CStr) :
    lineEntry (c :: s) = some ((((c :: s).takeWhile (· != Char.ofNat 0)).takeWhile isToken).take 256) := by
  rw [lineEntry_eq, List.takeWhile_cons, if_pos (bne_iff_ne.mpr hnull), firstToken_of_isToken hc]
  rfl

theorem firstToken_subset {line ip : CStr} (h : firstToken line = some ip) : ip ⊆ line := by
  simp only [firstToken] at h
  split at h
  · cases h
  · cases h
    exact List.Subset.trans (List.takeWhile_prefix _).subset
      (List.Subset.trans (List.dropWhile_suffix _).subset (List.takeWhile_prefix _).subset)

theorem null_notMem_of_lineEntry {ip : CStr} (h : lineEntry p = some ip) : Char.ofNat 0 ∉ ip := by
  intro hmem
  rw [lineEntry_eq, Option.map_eq_some_iff] at h
  obtain ⟨t, ht, rfl⟩ := h
  have hcut := firstToken_subset ht (List.mem_of_mem_take hmem)
  exact absurd (List.mem_takeWhile_imp hcut) (by decide)

/-- A text is blank, or it starts a comment or a word behind blanks. -/
theorem blank_cases (p : CStr) : (∀ c ∈ p, isSpace c) ∨
    ∃ w c r, (∀ d ∈ w, isSpace d) ∧ isSpace c = false ∧ p = w ++ c :: r := by
  induction p with
  | nil => exact Or.inl fun c hc => absurd hc List.not_mem_nil
  | cons c p ih =>
    cases hc : isSpace c with
    | false => exact Or.inr ⟨[], c, p, fun d hd => absurd hd List.not_mem_nil, hc, rfl⟩
    | true =>
      obtain h | ⟨w, d, r, hw, hd, rfl⟩ := ih
      · exact Or.inl (List.forall_mem_cons.mpr ⟨hc, h⟩)
      · exact Or.inr ⟨c :: w, d, r, List.forall_mem_cons.mpr ⟨hc, hw⟩, hd, rfl⟩

/-! ## The pieces of a line -/

theorem lineEntry_filterMap_eq_nil {ps : List CStr} :
    ps.filterMap lineEntry = [] ↔ ∀ q ∈ ps, lineEntry q = none := List.filterMap_eq_nil_iff

theorem piecesFit_of_token {ps : List CStr} {r : CStr} (hc : isSpace c = false) :
    PiecesFit ((w ++ c :: r) :: ps) ↔ ∀ q ∈ ps, lineEntry q = none := by
  have hnot : ¬ ∀ d ∈ w ++ c :: r, isSpace d = true := fun h =>
    Bool.false_ne_true (hc.symm.trans (h c (by simp)))
  rw [PiecesFit, if_neg hnot]

/-- A word that goes on in the next piece makes an entry there, or has a null byte. -/
theorem takeWhile_pieces {ps : List CStr} (hne : ∀ p ∈ ps, p ≠ []) (hnone : ∀ q ∈ ps, lineEntry q = none)
    (hnull : Char.ofNat 0 ∉ (s ++ ps.flatten).takeWhile isToken) :
    (s ++ ps.flatten).takeWhile isToken = s.takeWhile isToken := by
  cases ps with
  | nil => rw [List.flatten_nil, List.append_nil]
  | cons q ps =>
    obtain ⟨d, q, rfl⟩ := List.exists_cons_of_ne_nil (hne q List.mem_cons_self)
    rw [List.takeWhile_append] at hnull ⊢
    split
    · next hall =>
      rw [if_pos hall] at hnull
      cases hd : isToken d with
      | false =>
        have hstop : (((d :: q) :: ps).flatten).takeWhile isToken = [] := by
          rw [List.flatten_cons, List.cons_append, List.takeWhile_cons, hd]
          rfl
        rw [hstop, List.append_nil]
        exact ((List.takeWhile_prefix isToken).eq_of_length hall).symm
      | true =>
        have hzero : d ≠ Char.ofNat 0 := by
          rintro rfl
          refine hnull (List.mem_append_right _ ?_)
          rw [List.flatten_cons, List.cons_append, List.takeWhile_cons, if_pos hd]
          exact List.mem_cons_self
        have hsome := hnone (d :: q) List.mem_cons_self
        rw [lineEntry_of_isToken hd hzero] at hsome
        exact absurd hsome (Option.some_ne_none _)
    · rfl

theorem takeWhile_null (h : Char.ofNat 0 ∉ s.takeWhile isToken) :
    (s.takeWhile (· != Char.ofNat 0)).takeWhile isToken = s.takeWhile isToken := by
  induction s with
  | nil => rfl
  | cons d s ih =>
    cases hd : isToken d with
    | false =>
      rw [List.takeWhile_cons (p := isToken), hd, List.takeWhile_cons]
      split
      · rw [List.takeWhile_cons, hd]
        rfl
      · rfl
    | true =>
      rw [List.takeWhile_cons, if_pos hd] at h
      obtain ⟨hzero, hs⟩ := not_or.mp (mt List.mem_cons.mpr h)
      rw [List.takeWhile_cons, if_pos (bne_iff_ne.mpr (Ne.symm hzero)), List.takeWhile_cons, if_pos hd,
        List.takeWhile_cons, if_pos hd, ih hs]

theorem lineEntry_hash (s : CStr) : lineEntry ('#' :: s) = none := by
  rw [lineEntry_eq, List.takeWhile_cons, if_pos (by decide), firstToken_hash]
  rfl

theorem lineEntry_null (s : CStr) : lineEntry (Char.ofNat 0 :: s) = none := by
  rw [lineEntry_eq, List.takeWhile_cons, if_neg (by decide)]
  rfl

/-- The pieces of a line from the one where its word starts. -/
theorem pieces_token {ps : List CStr} {r t : CStr} (hne : ∀ p ∈ ps, p ≠ []) (hc : isToken c = true)
    (ht : t = (c :: r ++ ps.flatten).takeWhile isToken) :
    ((lineEntry (c :: r)).toList ++ ps.filterMap lineEntry = [t] ∧
        ∀ ip ∈ (lineEntry (c :: r)).toList ++ ps.filterMap lineEntry, ip.length < 256) ↔
      (∀ q ∈ ps, lineEntry q = none) ∧ Char.ofNat 0 ∉ t ∧ t.length < 256 := by
  have hhead : c ∈ t := by
    rw [ht, List.cons_append, List.takeWhile_cons, if_pos hc]
    exact List.mem_cons_self
  constructor
  · rintro ⟨heq, hlen⟩
    rw [heq] at hlen
    have hlt := hlen t (List.mem_singleton.mpr rfl)
    by_cases hzero : c = Char.ofNat 0
    · subst hzero
      rw [lineEntry_null, Option.toList_none, List.nil_append] at heq
      obtain ⟨q, -, hq⟩ := List.mem_filterMap.mp (heq.symm ▸ List.mem_singleton.mpr rfl : t ∈ ps.filterMap lineEntry)
      exact absurd hhead (null_notMem_of_lineEntry hq)
    · have hentry := lineEntry_of_isToken hc hzero r
      rw [hentry, Option.toList_some, List.singleton_append, List.cons.injEq] at heq
      rw [heq.1] at hentry
      exact ⟨lineEntry_filterMap_eq_nil.mp heq.2, null_notMem_of_lineEntry hentry, hlt⟩
  · rintro ⟨hnone, hnull, hlt⟩
    have hzero : c ≠ Char.ofNat 0 := fun h => hnull (h ▸ hhead)
    have hpiece : t = (c :: r).takeWhile isToken := by
      rw [ht] at hnull ⊢
      exact takeWhile_pieces hne hnone hnull
    have hentry : lineEntry (c :: r) = some t := by
      rw [hpiece] at hnull hlt
      rw [lineEntry_of_isToken hc hzero, takeWhile_null hnull, List.take_of_length_le hlt.le, ← hpiece]
    rw [hentry, lineEntry_filterMap_eq_nil.mpr hnone]
    refine ⟨rfl, fun ip hip => ?_⟩
    rw [List.mem_singleton.mp hip]
    exact hlt

/-- A line is read as it should exactly when its pieces and its word fit. -/
theorem pieces_iff {ps : List CStr} (hne : ∀ p ∈ ps, p ≠ []) :
    (ps.filterMap lineEntry = (firstToken ps.flatten).toList ∧
        ∀ ip ∈ ps.filterMap lineEntry, ip.length < 256) ↔ PiecesFit ps ∧ TokenFits ps.flatten := by
  induction ps with
  | nil => exact iff_of_true ⟨rfl, fun ip h => absurd h List.not_mem_nil⟩ ⟨trivial, fun ip h => by cases h⟩
  | cons p ps ih =>
    obtain ⟨-, hps⟩ := List.forall_mem_cons.mp hne
    have hcons : (p :: ps).filterMap lineEntry = (lineEntry p).toList ++ ps.filterMap lineEntry := by
      rw [List.filterMap_cons]
      cases lineEntry p <;> rfl
    obtain hp | ⟨w, c, r, hw, hc, rfl⟩ := blank_cases p
    · rw [hcons, lineEntry_of_spaces hp, Option.toList_none, List.nil_append, PiecesFit, if_pos hp, TokenFits,
        List.flatten_cons, firstToken_spaces hp]
      exact ih hps
    · rw [hcons, lineEntry_spaces hw, piecesFit_of_token hc, TokenFits, List.flatten_cons, List.append_assoc,
        firstToken_spaces hw]
      by_cases hhash : c = '#'
      · subst hhash
        rw [lineEntry_hash, List.cons_append, firstToken_hash, Option.toList_none, List.nil_append,
          lineEntry_filterMap_eq_nil]
        refine and_congr_right fun hnone => ?_
        rw [lineEntry_filterMap_eq_nil.mpr hnone]
        exact iff_of_true (fun ip h => absurd h List.not_mem_nil) fun ip h => by cases h
      · have htoken : isToken c = true := by rw [isToken, hc, bne_iff_ne.mpr hhash]; rfl
        rw [List.cons_append, firstToken_of_isToken htoken, Option.toList_some, ← List.cons_append,
          pieces_token hps htoken rfl]
        simp only [Option.mem_def, Option.some.injEq, forall_eq']

/-- A word without a null byte makes an entry. -/
theorem firstToken_length_le {ps : List CStr} (hnull : ∀ ip ∈ firstToken ps.flatten, Char.ofNat 0 ∉ ip) :
    (firstToken ps.flatten).toList.length ≤ (ps.filterMap lineEntry).length := by
  induction ps with
  | nil => exact Nat.zero_le _
  | cons p ps ih =>
    rw [List.flatten_cons] at hnull ⊢
    obtain hp | ⟨w, c, r, hw, hc, rfl⟩ := blank_cases p
    · rw [firstToken_spaces hp] at hnull ⊢
      rw [List.filterMap_cons_none (lineEntry_of_spaces hp)]
      exact ih hnull
    · rw [List.append_assoc, firstToken_spaces hw, List.cons_append] at hnull ⊢
      by_cases hhash : c = '#'
      · subst hhash
        exact Nat.zero_le _
      · have htoken : isToken c = true := by rw [isToken, hc, bne_iff_ne.mpr hhash]; rfl
        rw [firstToken_of_isToken htoken] at hnull ⊢
        have hzero : c ≠ Char.ofNat 0 := by
          rintro rfl
          refine hnull _ rfl ?_
          rw [List.takeWhile_cons, if_pos htoken]
          exact List.mem_cons_self
        have hentry := lineEntry_of_isToken htoken hzero r
        rw [← lineEntry_spaces hw] at hentry
        rw [List.filterMap_cons_some hentry]
        exact Nat.succ_le_succ (Nat.zero_le _)

end

/-! ## The lines of a file -/

section
variable {α β : Type}

theorem length_flatMap_le {f g : α → List β} {xs : List α} (h : ∀ x ∈ xs, (g x).length ≤ (f x).length) :
    (xs.flatMap g).length ≤ (xs.flatMap f).length := by
  induction xs with
  | nil => exact le_rfl
  | cons x xs ih =>
    obtain ⟨hx, hxs⟩ := List.forall_mem_cons.mp h
    rw [List.flatMap_cons, List.flatMap_cons, List.length_append, List.length_append]
    exact Nat.add_le_add hx (ih hxs)

/-- Equal concatenations whose parts are at most as long have equal parts. -/
theorem flatMap_eq_of_length_le {f g : α → List β} {xs : List α} (h : ∀ x ∈ xs, (g x).length ≤ (f x).length)
    (heq : xs.flatMap f = xs.flatMap g) : ∀ x ∈ xs, f x = g x := by
  induction xs with
  | nil => exact fun x hx => absurd hx List.not_mem_nil
  | cons x xs ih =>
    obtain ⟨hx, hxs⟩ := List.forall_mem_cons.mp h
    rw [List.flatMap_cons, List.flatMap_cons] at heq
    have hlen := congrArg List.length heq
    have hrest := length_flatMap_le hxs
    rw [List.length_append, List.length_append] at hlen
    obtain ⟨hhead, htail⟩ := List.append_inj heq (by omega)
    exact List.forall_mem_cons.mpr ⟨hhead, ih hxs htail⟩

end

theorem passedStrings_eq (content : CStr) :
    passedStrings content = (lines content).flatMap fun l => (fileLines l).filterMap lineEntry := by
  rw [passedStrings, fileLines_eq_flatMap, List.filterMap_flatMap]

theorem filterMap_firstToken (ls : List CStr) :
    ls.filterMap firstToken = ls.flatMap fun l => (firstToken l).toList := by
  induction ls with
  | nil => rfl
  | cons l ls ih =>
    rw [List.filterMap_cons, List.flatMap_cons, ← ih]
    cases firstToken l <;> rfl

/-- `init_from_file` passes the strings to `init_from_string` one after the other. -/
theorem initFromFile_passed {h : Host} {t : XmIptree} {file content : CStr} {value : Nat} {ignore : Bool}
    (hopen : h.fopen file = some content) : (initFromFile h t file value ignore).1 =
      (passedStrings content).foldl (fun t ip => (initFromString h t ip value).1) t := by
  rw [initFromFile, hopen, passedStrings]
  dsimp only
  induction fileLines content generalizing t with
  | nil => rfl
  | cons l ls ih =>
    rw [List.foldl_cons, List.filterMap_cons]
    cases lineEntry l with
    | none => exact ih
    | some ip => exact ih

/-- A file of any content is read line by line exactly when, in every line, the word fits and what stands behind
the piece where the word or the comment starts is blank, up to a comment of its own in each piece. -/
theorem initFromFile_readsLines_iff (content : CStr) :
    ReadsLines content ↔ ∀ l ∈ lines content, PiecesFit (fileLines l) ∧ TokenFits l := by
  have hline : ∀ l, ((fileLines l).filterMap lineEntry = (firstToken l).toList ∧
      ∀ ip ∈ (fileLines l).filterMap lineEntry, ip.length < 256) ↔
        PiecesFit (fileLines l) ∧ TokenFits l := fun l => by
    have h := pieces_iff (fileLines_flatten l).2
    rwa [(fileLines_flatten l).1] at h
  constructor
  · rintro ⟨hpassed, hlen⟩
    have hnull : ∀ l ∈ lines content, ∀ ip ∈ firstToken l, Char.ofNat 0 ∉ ip := fun l hl ip hip => by
      have hmem : ip ∈ passedStrings content := hpassed ▸ List.mem_filterMap.mpr ⟨l, hl, hip⟩
      obtain ⟨q, -, hq⟩ := List.mem_filterMap.mp hmem
      exact null_notMem_of_lineEntry hq
    rw [passedStrings_eq, filterMap_firstToken] at hpassed
    have hle : ∀ l ∈ lines content, (firstToken l).toList.length ≤ ((fileLines l).filterMap lineEntry).length :=
      fun l hl => by
        have h := (fileLines_flatten l).1
        have hpieces : (firstToken (fileLines l).flatten).toList.length ≤
            ((fileLines l).filterMap lineEntry).length :=
          firstToken_length_le (by rw [h]; exact hnull l hl)
        rwa [h] at hpieces
    have heq := flatMap_eq_of_length_le hle hpassed
    refine fun l hl => (hline l).mp ⟨heq l hl, fun ip hip => hlen ip ?_⟩
    rw [passedStrings_eq]
    exact List.mem_flatMap.mpr ⟨l, hl, hip⟩
  · intro h
    constructor
    · rw [passedStrings_eq, filterMap_firstToken]
      exact List.flatMap_congr fun l hl => ((hline l).mpr (h l hl)).1
    · intro ip hip
      rw [passedStrings_eq] at hip
      obtain ⟨l, hl, hip⟩ := List.mem_flatMap.mp hip
      exact ((hline l).mpr (h l hl)).2 ip hip

/-- A comment of 1000 bytes that mentions a network. -/
def longComment : CStr := '#' :: (List.replicate 998 ' ' ++ "10.0.0.0/8".toList)

/-- The network is read. -/
theorem initFromFile_reads_comment : ¬ ReadsLines longComment := by
  rintro ⟨hpassed, -⟩
  have hcode : passedStrings longComment = ["10.0.0.0/8".toList] := by decide +kernel
  have hlines : (lines longComment).filterMap firstToken = [] := by decide +kernel
  rw [hcode, hlines] at hpassed
  exact List.cons_ne_nil _ _ hpassed

end Xmap.Target
