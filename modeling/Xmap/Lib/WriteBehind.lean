import Mathlib.Tactic

/-!
# Buffers with a timed flush

A call puts an item into a buffer or not, and then empties the buffer if a flush is due at its time. Whether
anything is left at the end depends on the times and on the calls that put.
-/

namespace Xmap.Lib

section
variable {α : Type} {l : List α} {x y : α} {i : Nat}

theorem getElem?_append_singleton_self : (l ++ [x])[l.length]? = some x := by simp

theorem getElem?_append_singleton_cases (h : (l ++ [x])[i]? = some y) :
    l[i]? = some y ∨ i = l.length ∧ y = x := by
  have hi := (List.getElem?_eq_some_iff.mp h).1
  rw [List.length_append, List.length_singleton] at hi
  rcases Nat.lt_succ_iff_lt_or_eq.mp hi with hlt | rfl
  · rw [List.getElem?_append_left hlt] at h
    exact Or.inl h
  · rw [getElem?_append_singleton_self] at h
    cases h
    exact Or.inr ⟨rfl, rfl⟩

theorem getElem?_append_singleton_of (h : l[i]? = some y) : (l ++ [x])[i]? = some y := by
  rw [List.getElem?_append_left (List.getElem?_eq_some_iff.mp h).1]
  exact h

end

variable {T : Type} (due : T → T → Prop) [DecidableRel due]

/-- The time of the last flush. -/
def lastFlush (last : T) (times : List T) : T :=
  times.foldl (fun l t => if due l t then t else l) last

/-- The call `j` is made at a time at which a flush is due. -/
def FlushesAt (last : T) (calls : List (T × Bool)) (j : Nat) : Prop :=
  ∃ d ∈ calls[j]?, due (lastFlush due last ((calls.take j).map Prod.fst)) d.1

/-- A flush is due at or after each call that puts. -/
def FlushesAll (last : T) (calls : List (T × Bool)) : Prop :=
  ∀ i c, calls[i]? = some c → c.2 = true → ∃ j ≥ i, FlushesAt due last calls j

variable {due} {last t : T} {times : List T} {calls : List (T × Bool)} {c : T × Bool} {j : Nat}

theorem lastFlush_append_singleton :
    lastFlush due last (times ++ [t]) =
      if due (lastFlush due last times) t then t else lastFlush due last times := by
  rw [lastFlush, List.foldl_append]
  rfl

theorem flushesAll_nil : FlushesAll due last [] := nofun

theorem flushesAt_append_singleton :
    FlushesAt due last (calls ++ [c]) j ↔
      (j = calls.length ∧ due (lastFlush due last (calls.map Prod.fst)) c.1) ∨
        FlushesAt due last calls j := by
  constructor
  · rintro ⟨d, hd, hdue⟩
    rcases getElem?_append_singleton_cases hd with hd' | ⟨rfl, rfl⟩
    · have hlt := (List.getElem?_eq_some_iff.mp hd').1
      rw [List.take_append_of_le_length hlt.le] at hdue
      exact Or.inr ⟨d, hd', hdue⟩
    · rw [List.take_left' rfl] at hdue
      exact Or.inl ⟨rfl, hdue⟩
  · rintro (⟨rfl, hdue⟩ | ⟨d, hd, hdue⟩)
    · refine ⟨c, getElem?_append_singleton_self, ?_⟩
      rw [List.take_left' rfl]
      exact hdue
    · have hlt := (List.getElem?_eq_some_iff.mp hd).1
      refine ⟨d, getElem?_append_singleton_of hd, ?_⟩
      rw [List.take_append_of_le_length hlt.le]
      exact hdue

/-- A call leaves nothing if a flush is due, or if it puts nothing and nothing was left. -/
theorem flushesAll_append_singleton :
    FlushesAll due last (calls ++ [c]) ↔
      due (lastFlush due last (calls.map Prod.fst)) c.1 ∨ c.2 = false ∧ FlushesAll due last calls := by
  constructor
  · intro h
    by_cases hdue : due (lastFlush due last (calls.map Prod.fst)) c.1
    · exact Or.inl hdue
    refine Or.inr ⟨?_, fun i e he hput => ?_⟩
    · cases hput : c.2 with
      | false => rfl
      | true =>
        -- no call comes after the last one
        obtain ⟨j, hj, hat⟩ := h _ _ getElem?_append_singleton_self hput
        rcases flushesAt_append_singleton.mp hat with ⟨_, hd⟩ | ⟨d, hd, _⟩
        · exact absurd hd hdue
        · have := (List.getElem?_eq_some_iff.mp hd).1
          omega
    · obtain ⟨j, hj, hat⟩ := h i e (getElem?_append_singleton_of he) hput
      rcases flushesAt_append_singleton.mp hat with ⟨_, hd⟩ | hat
      · exact absurd hd hdue
      · exact ⟨j, hj, hat⟩
  · rintro (hdue | ⟨hput, h⟩) i e he hpe
    · refine ⟨calls.length, ?_, flushesAt_append_singleton.mpr (Or.inl ⟨rfl, hdue⟩)⟩
      have hi := (List.getElem?_eq_some_iff.mp he).1
      rw [List.length_append, List.length_singleton] at hi
      omega
    · rcases getElem?_append_singleton_cases he with he' | ⟨_, rfl⟩
      · obtain ⟨j, hj, hat⟩ := h i e he' hpe
        exact ⟨j, hj, flushesAt_append_singleton.mpr (Or.inr hat)⟩
      · rw [hput] at hpe
        cases hpe

end Xmap.Lib
