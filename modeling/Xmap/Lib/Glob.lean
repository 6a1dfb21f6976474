import Mathlib.Tactic

/-!
# Patterns with stars

A pattern is a list of sets of letters, each for one letter, and of stars, each for any letters. Of the places where
the letters between two stars match, the first is enough.
-/

namespace Xmap.Lib.Glob

inductive Tok (α : Type) where
  | star
  | one (accepts : α → Bool)

inductive Matches {α : Type} : List (Tok α) → List α → Prop where
  | nil : Matches [] []
  | one {accepts : α → Bool} {ts : List (Tok α)} {c : α} {s : List α} (hc : accepts c = true) (h : Matches ts s) :
      Matches (.one accepts :: ts) (c :: s)
  | star {ts : List (Tok α)} {s : List α} (k : Nat) (h : Matches ts (s.drop k)) : Matches (.star :: ts) s

variable {α : Type} {accepts : α → Bool} {ts : List (Tok α)} {sets : List (α → Bool)} {c : α} {s : List α} {k : Nat}

/-! ## Letters -/

theorem matches_nil : Matches [] s ↔ s = [] := by
  constructor
  · intro h
    cases h
    rfl
  · rintro rfl
    exact .nil

theorem not_matches_one_nil : ¬ Matches (.one accepts :: ts) [] := by
  intro h
  cases h

theorem matches_one_cons : Matches (.one accepts :: ts) (c :: s) ↔ accepts c = true ∧ Matches ts s := by
  constructor
  · intro h
    cases h with
    | one hc h => exact ⟨hc, h⟩
  · rintro ⟨hc, h⟩
    exact .one hc h

/-- Sets of letters, and the pattern behind them. -/
theorem matches_ones : Matches (sets.map Tok.one ++ ts) s ↔
    sets.length ≤ s.length ∧ Matches (sets.map Tok.one) (s.take sets.length) ∧ Matches ts (s.drop sets.length) := by
  induction sets generalizing s with
  | nil => simp [matches_nil]
  | cons accepts sets ih =>
    cases s with
    | nil => simp [not_matches_one_nil]
    | cons c s =>
      simp only [List.map_cons, List.cons_append, matches_one_cons, ih, List.length_cons, List.take_succ_cons,
        List.drop_succ_cons, Nat.add_le_add_iff_right]
      tauto

theorem length_of_matches_ones (h : Matches (sets.map Tok.one) s) : s.length = sets.length := by
  induction sets generalizing s with
  | nil => rw [matches_nil.mp h]; rfl
  | cons accepts sets ih =>
    cases h with
    | one hc h => rw [List.length_cons, List.length_cons, ih h]

/-! ## Stars -/

theorem matches_star : Matches (.star :: ts) s ↔ ∃ k, Matches ts (s.drop k) := by
  constructor
  · intro h
    cases h with
    | star k h => exact ⟨k, h⟩
  · rintro ⟨k, h⟩
    exact .star k h

theorem matches_star_nil : Matches (.star :: ts) [] ↔ Matches ts [] := by
  rw [matches_star]
  simp

theorem matches_star_cons : Matches (.star :: ts) (c :: s) ↔ Matches ts (c :: s) ∨ Matches (.star :: ts) s := by
  rw [matches_star, matches_star]
  constructor
  · rintro ⟨k, h⟩
    cases k with
    | zero => exact .inl h
    | succ k => exact .inr ⟨k, h⟩
  · rintro (h | ⟨k, h⟩)
    · exact ⟨0, h⟩
    · exact ⟨k + 1, h⟩

theorem Matches.star_of_drop (h : Matches (.star :: ts) (s.drop k)) : Matches (.star :: ts) s := by
  obtain ⟨i, h⟩ := matches_star.mp h
  rw [List.drop_drop] at h
  exact .star _ h

theorem matches_star_star : Matches (.star :: .star :: ts) s ↔ Matches (.star :: ts) s := by
  rw [matches_star]
  constructor
  · rintro ⟨k, h⟩
    exact h.star_of_drop
  · intro h
    exact ⟨0, h⟩

/-- A star and a set of all letters change places. -/
theorem matches_star_any (hall : ∀ c, accepts c = true) :
    Matches (.star :: .one accepts :: ts) (c :: s) ↔ Matches (.star :: ts) s := by
  induction s generalizing c with
  | nil =>
    rw [matches_star_cons, matches_one_cons, matches_star_nil, matches_star_nil]
    simp [hall, not_matches_one_nil]
  | cons d s ih =>
    rw [matches_star_cons, matches_one_cons, ih, matches_star_cons]
    simp [hall]

theorem not_matches_star_one_nil : ¬ Matches (.star :: .one accepts :: ts) [] := by
  rw [matches_star_nil]
  exact not_matches_one_nil

/-- Behind a star, sets of letters that end the pattern match the last letters. -/
theorem matches_star_ones : Matches (.star :: sets.map Tok.one) s ↔
    sets.length ≤ s.length ∧ Matches (sets.map Tok.one) (s.drop (s.length - sets.length)) := by
  rw [matches_star]
  constructor
  · rintro ⟨k, h⟩
    have hlen := length_of_matches_ones h
    rw [List.length_drop] at hlen
    rcases Nat.lt_or_ge s.length k with hk | hk
    · rw [List.drop_eq_nil_of_le hk.le] at h
      rw [show sets.length = 0 by omega, Nat.sub_zero, List.drop_length]
      exact ⟨Nat.zero_le _, h⟩
    · rw [show s.length - sets.length = k by omega]
      exact ⟨by omega, h⟩
  · rintro ⟨-, h⟩
    exact ⟨_, h⟩

theorem length_le_of_matches_star (h : Matches (.star :: (sets.map Tok.one ++ ts)) s) : sets.length ≤ s.length := by
  obtain ⟨k, h⟩ := matches_star.mp h
  have hlen := (matches_ones.mp h).1
  rw [List.length_drop] at hlen
  omega

/-- Between two stars the first place where the letters match is as good as any other. -/
theorem matches_star_ones_star (hfirst : Matches (sets.map Tok.one) (s.take sets.length))
    (hlen : sets.length ≤ s.length) :
    Matches (.star :: (sets.map Tok.one ++ .star :: ts)) s ↔ Matches (.star :: ts) (s.drop sets.length) := by
  constructor
  · intro h
    obtain ⟨k, h⟩ := matches_star.mp h
    obtain ⟨-, -, h⟩ := matches_ones.mp h
    rw [List.drop_drop, Nat.add_comm, ← List.drop_drop] at h
    exact h.star_of_drop
  · intro h
    exact matches_star.mpr ⟨0, matches_ones.mpr ⟨hlen, hfirst, h⟩⟩

end Xmap.Lib.Glob
