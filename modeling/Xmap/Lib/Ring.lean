import Mathlib.Tactic

/-!
# Slots of a ring

A ring of `n` slots, walked from a base on: the slots within one turn are distinct.
-/

namespace Xmap.Lib

/-- The slot `j` steps after `r`. -/
def slot (n r j : Nat) : Nat := (r + j) % n

variable {n r j k : Nat}

theorem slot_succ : (slot n r j + 1) % n = slot n r (j + 1) := Nat.mod_add_mod _ _ _

theorem slot_inj (hj : j < n) (hk : k < n) (h : slot n r j = slot n r k) : j = k := by
  have := Nat.ModEq.add_left_cancel' r h
  rwa [Nat.ModEq, Nat.mod_eq_of_lt hj, Nat.mod_eq_of_lt hk] at this

theorem slot_add : slot n ((r + 1) % n) j = slot n r (j + 1) := by
  rw [slot, slot, Nat.mod_add_mod, add_assoc, add_comm 1 j]

/-- The `k` slots from `r` on. -/
def slots (n r k : Nat) : List Nat := (List.range k).map (slot n r)

theorem slots_append : slots n r (k + 1) = slots n r k ++ [slot n r k] := by
  rw [slots, List.range_succ, List.map_append, List.map_singleton, slots]

theorem slots_cons : slots n r (k + 1) = slot n r 0 :: slots n ((r + 1) % n) k := by
  rw [slots, List.range_succ_eq_map, List.map_cons, List.map_map, slots]
  exact congrArg _ (List.map_congr_left fun j _ => slot_add.symm)

theorem slot_notMem_slots (hk : k < n) : slot n r k ∉ slots n r k := by
  intro h
  obtain ⟨j, hj, he⟩ := List.mem_map.mp h
  have hjk := List.mem_range.mp hj
  exact absurd (slot_inj (hjk.trans hk) hk he) hjk.ne

end Xmap.Lib
