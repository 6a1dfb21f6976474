import Mathlib.Tactic

/-!
# Picks from a sequence

The elements with a property at the first places of a sequence. The sequence may have no element at a place.
-/

namespace Xmap.Lib

variable {α : Type}

/-- The elements with the property at the first `n` places. -/
def picks (e : Nat → Option α) (p : α → Bool) (n : Nat) : List α := ((List.range n).filterMap e).filter p

/-- The place has an element with the property. -/
def PickedAt (e : Nat → Option α) (p : α → Bool) (n : Nat) : Prop := ∃ a ∈ e n, p a = true

section
variable {e : Nat → Option α} {p : α → Bool} {a : α} {m n : Nat}

@[simp] theorem picks_zero : picks e p 0 = [] := rfl

theorem picks_succ (n : Nat) : picks e p (n + 1) = picks e p n ++ (e n).toList.filter p := by
  rw [picks, List.range_succ, List.filterMap_append, List.filter_append, picks]
  congr 1

theorem picks_succ_of_mem (ha : e n = some a) (hp : p a = true) : picks e p (n + 1) = picks e p n ++ [a] := by
  rw [picks_succ, ha]
  simp [hp]

theorem picks_succ_of_not (h : ¬ PickedAt e p n) : picks e p (n + 1) = picks e p n := by
  rw [picks_succ]
  cases ha : e n with
  | none => exact List.append_nil _
  | some a =>
    have hp : p a = false := Bool.eq_false_iff.mpr fun hp => h ⟨a, ha, hp⟩
    rw [Option.toList_some, List.filter_singleton, hp]
    exact List.append_nil _

theorem prefix_picks (h : m ≤ n) : picks e p m <+: picks e p n := by
  induction n, h using Nat.le_induction with
  | base => exact List.prefix_refl _
  | succ n _ ih =>
    rw [picks_succ]
    exact ih.trans (List.prefix_append _ _)

theorem length_picks_le (h : m ≤ n) : (picks e p m).length ≤ (picks e p n).length :=
  (prefix_picks h).length_le

/-- A picked place has more picks behind it than before it. -/
theorem length_picks_lt (hm : PickedAt e p m) (h : m < n) : (picks e p m).length < (picks e p n).length := by
  obtain ⟨a, ha, hp⟩ := hm
  have hle := length_picks_le (e := e) (p := p) h
  rw [picks_succ_of_mem ha hp, List.length_append, List.length_singleton] at hle
  exact hle

/-- Two picked places with as many picks before them are one. -/
theorem PickedAt.eq_of_length_eq (hm : PickedAt e p m) (hn : PickedAt e p n)
    (h : (picks e p m).length = (picks e p n).length) : m = n := by
  rcases Nat.lt_trichotomy m n with hlt | heq | hlt
  · exact absurd h (length_picks_lt hm hlt).ne
  · exact heq
  · exact absurd h (length_picks_lt hn hlt).ne'

end

end Xmap.Lib
