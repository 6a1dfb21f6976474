import Mathlib.Data.List.Basic
import Mathlib.Logic.Function.Iterate
import Mathlib.Tactic

/-!
# Walks to the first hit

A walk applies a function again and again and stops at the first element, after the one it starts
from, that meets a condition. A scan repeats this: it stops at every wanted element and ends at a last
one.
-/

namespace Xmap.Lib

variable {α : Type} {f : α → α} {P Q : α → Prop} {x : α} {m n : Nat}

/-- The first element after `x` that meets `P` is `m` steps away. -/
structure FirstHit (f : α → α) (P : α → Prop) (x : α) (m : Nat) : Prop where
  pos : 0 < m
  hit : P (f^[m] x)
  first : ∀ j, 0 < j → j < m → ¬ P (f^[j] x)

namespace FirstHit

theorem unique (hm : FirstHit f P x m) (hn : FirstHit f P x n) : m = n := by
  rcases Nat.lt_trichotomy m n with h | h | h
  · exact absurd hm.hit (hn.first m hm.pos h)
  · exact h
  · exact absurd hn.hit (hm.first n hn.pos h)

theorem le (hm : FirstHit f P x m) (hn : 0 < n) (h : P (f^[n] x)) : m ≤ n := by
  by_contra hlt
  exact hm.first n hn (by omega) h

theorem one (h : P (f x)) : FirstHit f P x 1 where
  pos := by omega
  hit := h
  first j hj hj1 := by omega

theorem of_exists (h : ∃ m, 0 < m ∧ P (f^[m] x)) : ∃ m, FirstHit f P x m := by
  classical
  refine ⟨Nat.find h, (Nat.find_spec h).1, (Nat.find_spec h).2, fun j hj hlt hP => ?_⟩
  exact Nat.find_min h hlt ⟨hj, hP⟩

theorem succ_iff (h : ¬ P (f x)) : FirstHit f P x (m + 1) ↔ FirstHit f P (f x) m := by
  constructor
  · rintro ⟨_, hit, first⟩
    refine ⟨?_, hit, fun j hj hjm => first (j + 1) (by omega) (by omega)⟩
    cases m with
    | zero => exact absurd hit h
    | succ m => omega
  · rintro ⟨pos, hit, first⟩
    refine ⟨by omega, hit, fun j hj hjm => ?_⟩
    obtain ⟨j, rfl⟩ : ∃ i, j = i + 1 := ⟨j - 1, by omega⟩
    cases j with
    | zero => exact h
    | succ j => exact first (j + 1) (by omega) (by omega)

theorem trans (hm : FirstHit f P x m) (hQ : ∀ y, Q y → P y) (hn : FirstHit f Q (f^[m] x) n)
    (hmQ : ¬ Q (f^[m] x)) : FirstHit f Q x (m + n) where
  pos := by have := hm.pos; omega
  hit := by rw [Nat.add_comm, Function.iterate_add_apply]; exact hn.hit
  first j hj hjn := by
    intro hq
    rcases Nat.lt_trichotomy j m with h | h | h
    · exact hm.first j hj h (hQ _ hq)
    · exact hmQ (h ▸ hq)
    · obtain ⟨i, rfl⟩ : ∃ i, j = i + m := ⟨j - m, by omega⟩
      rw [Function.iterate_add_apply] at hq
      exact hn.first i (by omega) (by omega) hq

theorem mono (hm : FirstHit f P x m) (hQ : ∀ y, Q y → P y) (h : Q (f^[m] x)) :
    FirstHit f Q x m where
  pos := hm.pos
  hit := h
  first j hj hjm hq := hm.first j hj hjm (hQ _ hq)

theorem drop (hm : FirstHit f P x (m + n)) (hn : 0 < n) : FirstHit f P (f^[m] x) n where
  pos := hn
  hit := by have := hm.hit; rwa [Nat.add_comm, Function.iterate_add_apply] at this
  first j hj hjn := by
    rw [← Function.iterate_add_apply]
    exact hm.first (j + m) (by omega) (by omega)

end FirstHit

/-! ## Scans -/

/-- The first `m` elements of the walk from `x`. -/
def walk (f : α → α) (x : α) (m : Nat) : List α := (List.range m).map fun j => f^[j] x

@[simp] theorem walk_zero : walk f x 0 = [] := rfl

theorem walk_succ : walk f x (m + 1) = x :: walk f (f x) m := by
  simp [walk, List.range_succ_eq_map, Function.comp_def]

theorem walk_add : walk f x (m + n) = walk f x m ++ walk f (f^[m] x) n := by
  simp [walk, List.range_add, Function.comp_def, ← Function.iterate_add_apply, Nat.add_comm]

theorem mem_walk {y : α} : y ∈ walk f x m ↔ ∃ j < m, f^[j] x = y := by
  simp [walk, eq_comm]

/-- A walk to its first hit has no repetition: one would bring the end forward. -/
theorem FirstHit.walk_nodup (h : FirstHit f P x m) : (walk f x m).Nodup := by
  refine List.Nodup.map_on ?_ List.nodup_range
  have hlt : ∀ i j, i < j → j < m → f^[i] x ≠ f^[j] x := by
    intro i j hij hj he
    have hend : f^[i + (m - j)] x = f^[m] x := by
      rw [Nat.add_comm, Function.iterate_add_apply, he, ← Function.iterate_add_apply]
      congr 1
      omega
    refine h.first (i + (m - j)) (by omega) (by omega) ?_
    rw [hend]
    exact h.hit
  intro i hi j hj he
  rw [List.mem_range] at hi hj
  rcases Nat.lt_trichotomy i j with hij | hij | hij
  · exact absurd he (hlt i j hij hj)
  · exact hij
  · exact absurd he.symm (hlt j i hij hi)

theorem exists_pred_of_return {y : α} (h : f^[m] x = x) (hy : y ∈ walk f x m) :
    ∃ z ∈ walk f x m, f z = y := by
  obtain ⟨j, hj, rfl⟩ := mem_walk.mp hy
  cases j with
  | zero =>
    refine ⟨f^[m - 1] x, mem_walk.mpr ⟨m - 1, by omega, rfl⟩, ?_⟩
    rw [← Function.iterate_succ_apply' f, Nat.succ_eq_add_one, Nat.sub_add_cancel (by omega), h]
    rfl
  | succ j => exact ⟨f^[j] x, mem_walk.mpr ⟨j, by omega, rfl⟩, (Function.iterate_succ_apply' f j x).symm⟩

/-- Walks that each end where the next one starts make one walk. -/
theorem walk_chain {k : Nat} (xs : Nat → α) {ms : Nat → Nat}
    (h : ∀ i < k, f^[ms i] (xs i) = xs (i + 1)) :
    f^[((List.range k).map ms).sum] (xs 0) = xs k ∧
      (List.range k).flatMap (fun i => walk f (xs i) (ms i)) =
        walk f (xs 0) ((List.range k).map ms).sum := by
  induction k with
  | zero => simp
  | succ k ih =>
    obtain ⟨hend, hflat⟩ := ih fun i hi => h i (by omega)
    rw [List.range_succ, List.map_append, List.sum_append, List.flatMap_append, hflat]
    simp only [List.map_cons, List.map_nil, List.sum_cons, List.sum_nil, Nat.add_zero,
      List.flatMap_cons, List.flatMap_nil, List.append_nil]
    rw [walk_add, hend]
    refine ⟨?_, rfl⟩
    rw [Nat.add_comm, Function.iterate_add_apply, hend, h k (by omega)]

/-- The wanted elements that a scan from `x` stops at, up to the last element. -/
inductive Scans (f : α → α) (last wanted : α → Prop) : α → List α → Prop where
  | done {x : α} {m : Nat} : FirstHit f (fun y => last y ∨ wanted y) x m → last (f^[m] x) →
      Scans f last wanted x []
  | next {x : α} {m : Nat} {l : List α} : FirstHit f (fun y => last y ∨ wanted y) x m → ¬ last (f^[m] x) →
      Scans f last wanted (f^[m] x) l → Scans f last wanted x (f^[m] x :: l)

variable {last wanted : α → Prop} [DecidablePred wanted]

theorem filter_walk_eq_nil (h : ∀ j < m, ¬ wanted (f^[j] x)) :
    (walk f x m).filter wanted = [] := by
  rw [List.filter_eq_nil_iff]
  intro y hy
  obtain ⟨j, hj, rfl⟩ := mem_walk.mp hy
  simpa using h j hj

theorem FirstHit.filter_walk (h : FirstHit f (fun y => last y ∨ wanted y) x (m + 1))
    (hw : wanted (f^[m + 1] x)) :
    (walk f (f x) (m + (n + 1))).filter wanted =
      f^[m + 1] x :: (walk f (f (f^[m + 1] x)) n).filter wanted := by
  have hnil : (walk f (f x) m).filter wanted = [] :=
    filter_walk_eq_nil fun j hj hwj => h.first (j + 1) (by omega) (by omega) (Or.inr hwj)
  rw [walk_add, List.filter_append, hnil, List.nil_append, walk_succ,
    ← Function.iterate_succ_apply, List.filter_cons, if_pos (decide_eq_true hw)]

theorem FirstHit.filter_walk_last (h : FirstHit f (fun y => last y ∨ wanted y) x (m + 1)) :
    (walk f (f x) m).filter wanted = [] :=
  filter_walk_eq_nil fun j hj hwj => h.first (j + 1) (by omega) (by omega) (Or.inr hwj)

/-- A scan stops at the wanted elements of the walk to the last one. -/
theorem Scans.exists_firstHit {l : List α} (h : Scans f last wanted x l) :
    ∃ m, FirstHit f last x (m + 1) ∧ l = (walk f (f x) m).filter wanted := by
  induction h with
  | @done x m hit hl =>
    obtain ⟨m, rfl⟩ : ∃ k, m = k + 1 := ⟨m - 1, by have := hit.pos; omega⟩
    exact ⟨m, hit.mono (fun _ => Or.inl) hl, hit.filter_walk_last.symm⟩
  | @next x m l hit hl _ ih =>
    obtain ⟨n, hn, rfl⟩ := ih
    obtain ⟨m, rfl⟩ : ∃ k, m = k + 1 := ⟨m - 1, by have := hit.pos; omega⟩
    refine ⟨m + (n + 1), ?_, (hit.filter_walk (hit.hit.resolve_left hl)).symm⟩
    have := hit.trans (fun _ => Or.inl) hn hl
    rwa [show m + 1 + (n + 1) = m + (n + 1) + 1 by omega] at this

theorem FirstHit.scans (h : FirstHit f last x (m + 1)) :
    Scans f last wanted x ((walk f (f x) m).filter wanted) := by
  induction m using Nat.strongRecOn generalizing x with
  | _ m ih =>
    obtain ⟨k, hk⟩ := FirstHit.of_exists (P := fun y => last y ∨ wanted y)
      ⟨m + 1, by omega, Or.inl h.hit⟩
    have hle : k ≤ m + 1 := hk.le (by omega) (Or.inl h.hit)
    obtain ⟨k, rfl⟩ : ∃ i, k = i + 1 := ⟨k - 1, by have := hk.pos; omega⟩
    by_cases hl : last (f^[k + 1] x)
    · obtain rfl : k = m := by have := (hk.mono (fun _ => Or.inl) hl).unique h; omega
      rw [hk.filter_walk_last]
      exact .done hk hl
    · have hne : k ≠ m := by rintro rfl; exact hl h.hit
      obtain ⟨n, rfl⟩ : ∃ n, m = k + (n + 1) := ⟨m - k - 1, by omega⟩
      rw [hk.filter_walk (hk.hit.resolve_left hl)]
      rw [show k + (n + 1) + 1 = k + 1 + (n + 1) by omega] at h
      exact .next hk hl (ih n (by omega) (h.drop (by omega)))

end Xmap.Lib
