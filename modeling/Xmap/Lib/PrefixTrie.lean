import Mathlib.Data.Nat.Bitwise
import Mathlib.Tactic

/-!
# Binary tries over bit paths

A trie whose leaves carry values. A path is an infinite sequence of bits; a lookup follows it
from the root. `insert` writes a value under the first `n` bits of a path: it splits the leaves
it meets, stops at a leaf that already has the value, and leaves an inner node as it is.
-/

namespace Xmap.Lib

/-- An infinite sequence of bits, read from the root of a trie downwards. -/
abbrev Path := Nat → Bool

/-- The path below the first bit. -/
def Path.tail (p : Path) : Path := fun i => p (i + 1)

@[simp] theorem Path.tail_apply (p : Path) (i : Nat) : p.tail i = p (i + 1) := rfl

/-- The two paths agree on their first `n` bits. -/
def Agree (n : Nat) (p q : Path) : Prop := ∀ i < n, p i = q i

instance (n : Nat) (p q : Path) : Decidable (Agree n p q) :=
  inferInstanceAs (Decidable (∀ i < n, p i = q i))

@[simp] theorem agree_zero (p q : Path) : Agree 0 p q := by simp [Agree]

theorem agree_succ {n : Nat} {p q : Path} :
    Agree (n + 1) p q ↔ p 0 = q 0 ∧ Agree n p.tail q.tail := by
  constructor
  · intro h
    exact ⟨h 0 (by omega), fun i hi => h (i + 1) (by omega)⟩
  · rintro ⟨h0, ht⟩ i hi
    cases i with
    | zero => exact h0
    | succ i => exact ht i (by omega)

theorem Agree.mono {m n : Nat} {p q : Path} (hmn : m ≤ n) (h : Agree n p q) : Agree m p q :=
  fun i hi => h i (by omega)

inductive Trie (V : Type) where
  | leaf (v : V)
  | node (l r : Trie V)

namespace Trie

variable {V : Type}

/-- The child on the side of the bit `b`. -/
def child (l r : Trie V) (b : Bool) : Trie V := if b then r else l

@[simp] theorem child_true (l r : Trie V) : child l r true = r := rfl
@[simp] theorem child_false (l r : Trie V) : child l r false = l := rfl

/-- The value of the leaf that the path reaches. -/
def lookup : Trie V → Path → V
  | leaf v, _ => v
  | node l r, p => if p 0 then r.lookup p.tail else l.lookup p.tail

theorem lookup_node (l r : Trie V) (p : Path) :
    (node l r).lookup p = (child l r (p 0)).lookup p.tail := by
  cases h : p 0 <;> simp [lookup, h]

/-- The node at depth `n` on the path exists and is an inner node. -/
def SplitAt : Trie V → Path → Nat → Prop
  | leaf _, _, _ => False
  | node _ _, _, 0 => True
  | node l r, p, n + 1 => if p 0 then r.SplitAt p.tail n else l.SplitAt p.tail n

@[simp] theorem not_splitAt_leaf (v : V) (p : Path) (n : Nat) : ¬ (leaf v).SplitAt p n := by
  simp [SplitAt]

@[simp] theorem splitAt_node_zero (l r : Trie V) (p : Path) : (node l r).SplitAt p 0 := by
  simp [SplitAt]

theorem splitAt_node_succ (l r : Trie V) (p : Path) (n : Nat) :
    (node l r).SplitAt p (n + 1) ↔ (child l r (p 0)).SplitAt p.tail n := by
  cases h : p 0 <;> simp [SplitAt, h]

instance SplitAt.decidable : (n : Nat) → (t : Trie V) → (p : Path) → Decidable (t.SplitAt p n)
  | _, leaf _, _ => isFalse (by simp)
  | 0, node _ _, _ => isTrue (by simp)
  | n + 1, node l r, p =>
      have := SplitAt.decidable n (child l r (p 0)) p.tail
      decidable_of_iff _ (splitAt_node_succ l r p n).symm

theorem SplitAt.mono {t : Trie V} {p : Path} {m n : Nat} (hmn : m ≤ n) (h : t.SplitAt p n) :
    t.SplitAt p m := by
  induction m generalizing t p n with
  | zero => cases t with
    | leaf v => simp at h
    | node l r => simp
  | succ m ih => cases t with
    | leaf v => simp at h
    | node l r =>
      obtain ⟨n, rfl⟩ : ∃ k, n = k + 1 := ⟨n - 1, by omega⟩
      rw [splitAt_node_succ] at h ⊢
      exact ih (by omega) h

theorem SplitAt.congr {t : Trie V} {p q : Path} {n : Nat} (hpq : Agree n p q)
    (h : t.SplitAt p n) : t.SplitAt q n := by
  induction n generalizing t p q with
  | zero => cases t with
    | leaf v => simp at h
    | node l r => simp
  | succ n ih => cases t with
    | leaf v => simp at h
    | node l r =>
      obtain ⟨h0, ht⟩ := agree_succ.mp hpq
      rw [splitAt_node_succ] at h ⊢
      rw [← h0]
      exact ih ht h

theorem lookup_congr_of_not_splitAt {t : Trie V} {p q : Path} {n : Nat} (hpq : Agree n p q)
    (h : ¬ t.SplitAt p n) : t.lookup p = t.lookup q := by
  induction n generalizing t p q with
  | zero => cases t with
    | leaf v => rfl
    | node l r => simp at h
  | succ n ih => cases t with
    | leaf v => rfl
    | node l r =>
      obtain ⟨h0, ht⟩ := agree_succ.mp hpq
      rw [splitAt_node_succ] at h
      rw [lookup_node, lookup_node, ← h0]
      exact ih ht h

/-! ## Insertion -/

variable [DecidableEq V]

/-- Writes `v` under the first `n` bits of `p`. A leaf on the way is split unless it already has
the value; an inner node at depth `n` is left as it is. -/
def insert (v : V) : Nat → Trie V → Path → Trie V
  | 0, leaf _, _ => leaf v
  | 0, node l r, _ => node l r
  | n + 1, leaf u, p =>
      if u = v then leaf u
      else if p 0 then node (leaf u) (insert v n (leaf u) p.tail)
      else node (insert v n (leaf u) p.tail) (leaf u)
  | n + 1, node l r, p =>
      if p 0 then node l (insert v n r p.tail) else node (insert v n l p.tail) r

theorem insert_leaf_succ_of_ne {u v : V} (h : u ≠ v) (n : Nat) (p : Path) :
    insert v (n + 1) (leaf u) p = insert v (n + 1) (node (leaf u) (leaf u)) p := by
  simp [insert, h]

theorem insert_node_succ (v : V) (n : Nat) (l r : Trie V) (p : Path) :
    ∃ l' r', insert v (n + 1) (node l r) p = node l' r' ∧
      child l' r' (p 0) = insert v n (child l r (p 0)) p.tail ∧
      child l' r' (!p 0) = child l r (!p 0) := by
  cases h : p 0 <;> simp [insert, h]

theorem lookup_insert (v : V) (n : Nat) (t : Trie V) (p q : Path) :
    (insert v n t p).lookup q =
      if Agree n p q ∧ ¬ t.SplitAt p n then v else t.lookup q := by
  induction n generalizing t p q with
  | zero => cases t with
    | leaf u => simp [insert, lookup]
    | node l r => simp [insert]
  | succ n ih =>
    -- a leaf with another value behaves as the node made of two copies of it
    have hnode : ∀ l r : Trie V, (insert v (n + 1) (node l r) p).lookup q =
        if Agree (n + 1) p q ∧ ¬ (node l r).SplitAt p (n + 1) then v else (node l r).lookup q := by
      intro l r
      obtain ⟨l', r', he, hs, ho⟩ := insert_node_succ v n l r p
      simp only [he, lookup_node, splitAt_node_succ]
      by_cases h0 : p 0 = q 0
      · rw [← h0, hs, ih]
        simp only [agree_succ, h0, true_and]
      · have hq : q 0 = !p 0 := by cases hp : p 0 <;> cases hq : q 0 <;> simp_all
        have hna : ¬ Agree (n + 1) p q := fun h => h0 (agree_succ.mp h).1
        rw [hq, ho, if_neg (fun h => hna h.1)]
    cases t with
    | node l r => exact hnode l r
    | leaf u =>
      by_cases hu : u = v
      · subst hu
        simp [insert, lookup]
      · rw [insert_leaf_succ_of_ne hu, hnode]
        have hs : ¬ (node (leaf u) (leaf u)).SplitAt p (n + 1) := by
          rw [splitAt_node_succ]
          cases p 0 <;> simp
        simp [hs, lookup]

/-- The inner nodes after an insertion: those there before, and those above depth `n` on the path
when the value there was another one. -/
theorem splitAt_insert (v : V) (n : Nat) (t : Trie V) (p q : Path) (m : Nat) :
    (insert v n t p).SplitAt q m ↔
      t.SplitAt q m ∨ (m < n ∧ Agree m p q ∧ t.lookup p ≠ v) := by
  induction n generalizing t p q m with
  | zero => cases t <;> simp [insert]
  | succ n ih =>
    have hnode : ∀ l r : Trie V, (insert v (n + 1) (node l r) p).SplitAt q m ↔
        (node l r).SplitAt q m ∨ (m < n + 1 ∧ Agree m p q ∧ (node l r).lookup p ≠ v) := by
      intro l r
      obtain ⟨l', r', he, hs, ho⟩ := insert_node_succ v n l r p
      rw [he]
      cases m with
      | zero => simp
      | succ m =>
        rw [splitAt_node_succ, splitAt_node_succ, lookup_node, agree_succ]
        by_cases h0 : p 0 = q 0
        · rw [← h0, hs, ih]
          simp
        · have hq : q 0 = !p 0 := by cases hp : p 0 <;> cases hq : q 0 <;> simp_all
          rw [hq, ho]
          simp
    cases t with
    | node l r => exact hnode l r
    | leaf u =>
      by_cases hu : u = v
      · subst hu
        simp [insert, lookup]
      · rw [insert_leaf_succ_of_ne hu, hnode]
        cases m with
        | zero => simp [lookup, hu]
        | succ m =>
          have hs : ¬ (node (leaf u) (leaf u)).SplitAt q (m + 1) := by
            rw [splitAt_node_succ]
            cases q 0 <;> simp
          simp [hs, lookup, hu]

end Trie

end Xmap.Lib
