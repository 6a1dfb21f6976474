import Xmap.Target.Wblist

/-!
# Lines of files

`fgets` with a buffer of 1000 bytes takes a line in pieces of at most 999 bytes.
-/

namespace Xmap.Target

/-- The lines of a text, each with its newline; the last one may have none. -/
def lines : CStr → List CStr
  | [] => []
  | c :: s =>
    if c = '\n' then [c] :: lines s
    else
      match lines s with
      | [] => [[c]]
      | l :: ls => (c :: l) :: ls

section
variable {l s rest : CStr} {n : Nat}

theorem lines_of_not_mem (h : '\n' ∉ l) (hne : l ≠ []) : lines l = [l] := by
  induction l with
  | nil => exact absurd rfl hne
  | cons c l ih =>
    obtain ⟨hc, hl⟩ := not_or.mp (mt List.mem_cons.mpr h)
    rw [lines, if_neg (Ne.symm hc)]
    cases l with
    | nil => rfl
    | cons d l => rw [ih hl (List.cons_ne_nil d l)]

theorem lines_newline (h : '\n' ∉ l) (rest : CStr) :
    lines (l ++ '\n' :: rest) = (l ++ ['\n']) :: lines rest := by
  induction l with
  | nil => rw [List.nil_append, List.nil_append, lines, if_pos rfl]
  | cons c l ih =>
    obtain ⟨hc, hl⟩ := not_or.mp (mt List.mem_cons.mpr h)
    rw [List.cons_append, lines, if_neg (Ne.symm hc), ih hl]
    rfl

/-- A text is one line, or a line and more. -/
theorem lines_cases (s : CStr) : '\n' ∉ s ∨ ∃ l rest, '\n' ∉ l ∧ s = l ++ '\n' :: rest := by
  by_cases h : '\n' ∈ s
  · obtain ⟨l, rest, hs, hl⟩ := List.eq_append_cons_of_mem h
    exact Or.inr ⟨l, rest, hl, hs⟩
  · exact Or.inl h

/-! ## Pieces -/

theorem fgets_of_not_mem (h : '\n' ∉ s) : fgets n s = (s.take n, s.drop n) := by
  induction n generalizing s with
  | zero => rfl
  | succ n ih =>
    cases s with
    | nil => rfl
    | cons c s =>
      obtain ⟨hc, hs⟩ := not_or.mp (mt List.mem_cons.mpr h)
      rw [fgets, if_neg (Ne.symm hc), ih hs]
      rfl

/-- The pieces of a line do not reach over its newline. -/
theorem fgets_newline (h : '\n' ∉ l) (rest : CStr) : fgets n (l ++ '\n' :: rest) =
    ((l ++ ['\n']).take n, (l ++ ['\n']).drop n ++ rest) := by
  induction n generalizing l with
  | zero => simp [fgets]
  | succ n ih =>
    cases l with
    | nil => simp [fgets]
    | cons c l =>
      obtain ⟨hc, hl⟩ := not_or.mp (mt List.mem_cons.mpr h)
      rw [List.cons_append, fgets, if_neg (Ne.symm hc), ih hl]
      rfl

theorem length_fgets_snd (n : Nat) (s : CStr) : (fgets n s).2.length ≤ s.length := by
  induction n generalizing s with
  | zero => exact le_rfl
  | succ n ih =>
    cases s with
    | nil => exact le_rfl
    | cons c s =>
      have := ih s
      rw [fgets]
      split
      · exact Nat.le_succ _
      · exact this.trans (Nat.le_succ _)

theorem length_fgets_lt (n : Nat) (c : Char) (s : CStr) : (fgets (n + 1) (c :: s)).2.length < (c :: s).length := by
  have := length_fgets_snd n s
  rw [fgets]
  split
  · exact Nat.lt_succ_self _
  · exact Nat.lt_succ_of_le this

/-- More rounds than characters change nothing. -/
theorem readLines_of_le {m : Nat} (h : s.length ≤ m) : readLines m s = readLines s.length s := by
  induction m using Nat.strong_induction_on generalizing s with
  | _ m ih =>
    cases s with
    | nil => cases m <;> rfl
    | cons c s =>
      obtain ⟨m, rfl⟩ : ∃ k, m = k + 1 := ⟨m - 1, by rw [List.length_cons] at h; omega⟩
      have hlt : (fgets 999 (c :: s)).2.length < (c :: s).length := length_fgets_lt 998 c s
      rw [List.length_cons] at h hlt
      rw [List.length_cons, readLines, readLines, ih m (Nat.lt_succ_self m) (by omega)]
      rcases Nat.lt_or_ge s.length m with hsm | hsm
      · rw [ih s.length (by omega) (by omega)]
      · rw [show s.length = m by omega, ih m (Nat.lt_succ_self m) (by omega)]

theorem fileLines_cons (c : Char) (s : CStr) :
    fileLines (c :: s) = (fgets 999 (c :: s)).1 :: fileLines (fgets 999 (c :: s)).2 := by
  have hlt : (fgets 999 (c :: s)).2.length < (c :: s).length := length_fgets_lt 998 c s
  rw [List.length_cons] at hlt
  rw [fileLines, List.length_cons, readLines, readLines_of_le (by omega), fileLines]

theorem fileLines_of_short (hlen : (l ++ ['\n']).length ≤ 999) (h : '\n' ∉ l) (rest : CStr) :
    fileLines (l ++ '\n' :: rest) = (l ++ ['\n']) :: fileLines rest := by
  have hne : l ++ '\n' :: rest ≠ [] := by simp
  obtain ⟨c, s, hs⟩ := List.exists_cons_of_ne_nil hne
  rw [hs, fileLines_cons, ← hs, fgets_newline h, List.take_of_length_le hlen, List.drop_of_length_le hlen,
    List.nil_append]

theorem fileLines_of_not_mem (hlen : l.length ≤ 999) (h : '\n' ∉ l) (hne : l ≠ []) : fileLines l = [l] := by
  obtain ⟨c, s, hs⟩ := List.exists_cons_of_ne_nil hne
  have hget : fgets 999 l = (l, []) := by
    rw [fgets_of_not_mem h, List.take_of_length_le hlen, List.drop_of_length_le hlen]
  rw [hs, fileLines_cons, ← hs, hget]
  rfl

/-- A line and what follows are read one after the other. -/
theorem fileLines_newline (h : '\n' ∉ l) (rest : CStr) :
    fileLines (l ++ '\n' :: rest) = fileLines (l ++ ['\n']) ++ fileLines rest := by
  induction hn : l.length using Nat.strong_induction_on generalizing l with
  | _ n ih =>
    subst hn
    by_cases hlen : (l ++ ['\n']).length ≤ 999
    · rw [fileLines_of_short hlen h, fileLines_of_short hlen h]
      rfl
    · -- a piece of 999 bytes of the line
      have hlong : 999 ≤ l.length := by
        rw [List.length_append, List.length_singleton] at hlen
        omega
      have hdrop : (l ++ ['\n']).drop 999 = l.drop 999 ++ ['\n'] := List.drop_append_of_le_length hlong
      have hrest : '\n' ∉ l.drop 999 := fun hmem => h (List.mem_of_mem_drop hmem)
      have hpiece : ∀ rest, fileLines (l ++ '\n' :: rest) =
          (l ++ ['\n']).take 999 :: fileLines (l.drop 999 ++ '\n' :: rest) := fun rest => by
        obtain ⟨c, s, hs⟩ := List.exists_cons_of_ne_nil (show l ++ '\n' :: rest ≠ [] by simp)
        rw [hs, fileLines_cons, ← hs, fgets_newline h, hdrop, List.append_assoc]
        rfl
      rw [hpiece, hpiece, ih (l.drop 999).length (by rw [List.length_drop]; omega) hrest rfl]
      rfl

/-- The pieces of a file are those of its lines. -/
theorem fileLines_eq_flatMap (s : CStr) : fileLines s = (lines s).flatMap fileLines := by
  induction hn : s.length using Nat.strong_induction_on generalizing s with
  | _ n ih =>
    subst hn
    obtain h | ⟨l, rest, hl, rfl⟩ := lines_cases s
    · cases s with
      | nil => rfl
      | cons c s =>
        rw [lines_of_not_mem h (List.cons_ne_nil c s), List.flatMap_singleton]
    · rw [lines_newline hl, fileLines_newline hl, List.flatMap_cons, ← ih rest.length (by simp; omega) rest rfl]

/-- Lines below 1000 bytes are read as they are. -/
theorem fileLines_eq_lines (h : ∀ l ∈ lines s, l.length < 1000) : fileLines s = lines s := by
  induction hn : s.length using Nat.strong_induction_on generalizing s with
  | _ n ih =>
    subst hn
    obtain hs | ⟨l, rest, hl, rfl⟩ := lines_cases s
    · cases s with
      | nil => rfl
      | cons c s =>
        rw [lines_of_not_mem hs (List.cons_ne_nil c s)] at h ⊢
        exact fileLines_of_not_mem (Nat.le_of_lt_succ (h _ (List.mem_singleton.mpr rfl))) hs (List.cons_ne_nil c s)
    · rw [lines_newline hl] at h ⊢
      obtain ⟨hlen, hrest⟩ := List.forall_mem_cons.mp h
      rw [fileLines_of_short (Nat.le_of_lt_succ hlen) hl, ih rest.length (by simp; omega) hrest rfl]

theorem fgets_append (n : Nat) (s : CStr) : (fgets n s).1 ++ (fgets n s).2 = s := by
  induction n generalizing s with
  | zero => rfl
  | succ n ih =>
    cases s with
    | nil => rfl
    | cons c s =>
      rw [fgets]
      split
      · rfl
      · rw [List.cons_append, ih s]

theorem fgets_ne_nil (n : Nat) (c : Char) (s : CStr) : (fgets (n + 1) (c :: s)).1 ≠ [] := by
  rw [fgets]
  split <;> exact List.cons_ne_nil _ _

/-- The pieces are the text, and none is empty. -/
theorem fileLines_flatten (s : CStr) : (fileLines s).flatten = s ∧ ∀ p ∈ fileLines s, p ≠ [] := by
  induction hn : s.length using Nat.strong_induction_on generalizing s with
  | _ n ih =>
    subst hn
    cases s with
    | nil => exact ⟨rfl, fun p hp => absurd hp List.not_mem_nil⟩
    | cons c s =>
      obtain ⟨hflatten, hne⟩ := ih _ (length_fgets_lt 998 c s) (fgets 999 (c :: s)).2 rfl
      rw [fileLines_cons, List.flatten_cons, hflatten]
      exact ⟨fgets_append 999 (c :: s), List.forall_mem_cons.mpr ⟨fgets_ne_nil 998 c s, hne⟩⟩

end

end Xmap.Target
