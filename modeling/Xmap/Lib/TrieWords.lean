import Mathlib.Data.List.Nodup
import Mathlib.Tactic
import Xmap.Lib.PrefixTrie

/-!
# The words below a trie

The `k`-bit words whose path ends, within its `k` bits, at a leaf with a given value: listed in
ascending order, and listed by aligned blocks first.
-/

namespace Xmap.Lib

/-- The path of a `k`-bit word, highest bit first; past the word the path goes left. -/
def wordPath (k a : Nat) : Path := fun i => decide (i < k) && a.testBit (k - 1 - i)

theorem wordPath_zero (k a : Nat) : wordPath (k + 1) a 0 = a.testBit k := by simp [wordPath]

theorem wordPath_tail (k a : Nat) : (wordPath (k + 1) a).tail = wordPath k a := by
  funext i
  have : k - (i + 1) = k - 1 - i := by omega
  simp [wordPath, this]

theorem wordPath_two_pow_add (k a : Nat) : wordPath k (2 ^ k + a) = wordPath k a := by
  funext i
  by_cases hi : i < k
  · simp [wordPath, hi, Nat.testBit_two_pow_add_gt (show k - 1 - i < k by omega)]
  · simp [wordPath, hi]

/-- Words agree on their first `d` bits exactly when they have the same aligned block. -/
theorem agree_wordPath {k d a b : Nat} (hd : d ≤ k) (ha : a < 2 ^ k) (hb : b < 2 ^ k) :
    Agree d (wordPath k a) (wordPath k b) ↔ a / 2 ^ (k - d) = b / 2 ^ (k - d) := by
  constructor
  · intro h
    apply Nat.eq_of_testBit_eq
    intro i
    simp only [Nat.testBit_div_two_pow]
    by_cases hi : i < d
    · have := h (d - 1 - i) (by omega)
      have e : k - 1 - (d - 1 - i) = i + (k - d) := by omega
      simpa [wordPath, show d - 1 - i < k by omega, e] using this
    · have hk : 2 ^ k ≤ 2 ^ (i + (k - d)) := Nat.pow_le_pow_right (by omega) (by omega)
      rw [Nat.testBit_lt_two_pow (by omega), Nat.testBit_lt_two_pow (by omega)]
  · intro h i hi
    have e : k - 1 - i = d - 1 - i + (k - d) := by omega
    have hc := congrArg (fun x => x.testBit (d - 1 - i)) h
    simp only [Nat.testBit_div_two_pow] at hc
    simp [wordPath, show i < k by omega, e, hc]

namespace Trie

variable {V : Type}

/-- The value of the leaf that the path meets within `k` bits, and how many of them are left. -/
def reach : Trie V → Nat → Path → Option (V × Nat)
  | leaf v, k, _ => some (v, k)
  | node _ _, 0, _ => none
  | node l r, k + 1, p => if p 0 then r.reach k p.tail else l.reach k p.tail

theorem reach_node_succ (l r : Trie V) (k : Nat) (p : Path) :
    (node l r).reach (k + 1) p = (child l r (p 0)).reach k p.tail := by
  cases h : p 0 <;> simp [reach, h]

theorem reach_lookup {t : Trie V} {k : Nat} {p : Path} {v : V} {j : Nat}
    (h : t.reach k p = some (v, j)) : t.lookup p = v ∧ j ≤ k := by
  induction k generalizing t p with
  | zero => cases t with
    | leaf u => simp [reach] at h; simp [lookup, h]
    | node l r => simp [reach] at h
  | succ k ih => cases t with
    | leaf u => simp [reach] at h; simp [lookup, h]
    | node l r =>
      rw [reach_node_succ] at h
      obtain ⟨hv, hj⟩ := ih h
      exact ⟨by rw [lookup_node, hv], by omega⟩

theorem reach_eq_none {t : Trie V} {k : Nat} {p : Path} : t.reach k p = none ↔ t.SplitAt p k := by
  induction k generalizing t p with
  | zero => cases t <;> simp [reach]
  | succ k ih => cases t with
    | leaf u => simp [reach]
    | node l r => rw [reach_node_succ, splitAt_node_succ, ih]

theorem reach_add {t : Trie V} {d s : Nat} {p : Path} {v : V} {j : Nat} :
    t.reach (d + s) p = some (v, j + s) ↔ t.reach d p = some (v, j) := by
  induction d generalizing t p with
  | zero => cases t with
    | leaf u =>
      simp only [reach, Option.some.injEq, Prod.mk.injEq]
      constructor <;> rintro ⟨h1, h2⟩ <;> exact ⟨h1, by omega⟩
    | node l r =>
      simp only [reach, reduceCtorEq, iff_false]
      intro h
      cases s with
      | zero => simp [reach] at h
      | succ s =>
        rw [show 0 + (s + 1) = s + 1 by omega, reach_node_succ] at h
        have := (reach_lookup h).2
        omega
  | succ d ih => cases t with
    | leaf u =>
      simp only [reach, Option.some.injEq, Prod.mk.injEq]
      constructor <;> rintro ⟨h1, h2⟩ <;> exact ⟨h1, by omega⟩
    | node l r =>
      rw [show d + 1 + s = d + s + 1 by omega, reach_node_succ, reach_node_succ, ih]

theorem reach_congr {t : Trie V} {k : Nat} {p q : Path} (h : Agree k p q) :
    t.reach k p = t.reach k q := by
  induction k generalizing t p q with
  | zero => cases t <;> simp [reach]
  | succ k ih => cases t with
    | leaf u => simp [reach]
    | node l r =>
      obtain ⟨h0, ht⟩ := agree_succ.mp h
      rw [reach_node_succ, reach_node_succ, h0, ih ht]

/-- The path reaches, within `k` bits, a leaf with value `v`. -/
def ReachesWithin (t : Trie V) (k : Nat) (v : V) (p : Path) : Prop :=
  ∃ j, t.reach k p = some (v, j)

theorem reachesWithin_iff {t : Trie V} {k : Nat} {v : V} {p : Path} :
    t.ReachesWithin k v p ↔ t.lookup p = v ∧ ¬ t.SplitAt p k := by
  constructor
  · rintro ⟨j, hj⟩
    exact ⟨(reach_lookup hj).1, fun h => by simp [reach_eq_none.mpr h] at hj⟩
  · rintro ⟨hv, hs⟩
    cases hr : t.reach k p with
    | none => exact absurd (reach_eq_none.mp hr) hs
    | some x =>
      obtain ⟨u, j⟩ := x
      exact ⟨j, by rw [hr, ← hv, (reach_lookup hr).1]⟩

/-! ## The ascending list -/

variable [DecidableEq V]

/-- The `k`-bit words that reach a leaf with value `v` and with a number of bits left that `keep`
accepts, in ascending order. -/
def words (keep : Nat → Bool) (v : V) : Trie V → Nat → List Nat
  | leaf u, k => if u = v ∧ keep k then List.range (2 ^ k) else []
  | node _ _, 0 => []
  | node l r, k + 1 => words keep v l k ++ (words keep v r k).map (2 ^ k + ·)

theorem mem_words {keep : Nat → Bool} {v : V} {t : Trie V} {k a : Nat} :
    a ∈ words keep v t k ↔
      a < 2 ^ k ∧ ∃ j, t.reach k (wordPath k a) = some (v, j) ∧ keep j = true := by
  induction k generalizing t a with
  | zero => cases t with
    | leaf u =>
      simp only [words, reach, Option.some.injEq, Prod.mk.injEq]
      split <;> simp_all
    | node l r => simp [words, reach]
  | succ k ih => cases t with
    | leaf u =>
      simp only [words, reach, Option.some.injEq, Prod.mk.injEq]
      split <;> simp_all
    | node l r =>
      have hp : 2 ^ (k + 1) = 2 ^ k + 2 ^ k := by ring
      simp only [words, List.mem_append, List.mem_map, reach_node_succ, wordPath_zero,
        wordPath_tail, ih]
      by_cases hlt : a < 2 ^ k
      · rw [Nat.testBit_lt_two_pow hlt, child_false]
        constructor
        · rintro (⟨_, h⟩ | ⟨b, _, rfl⟩)
          · exact ⟨by omega, h⟩
          · omega
        · rintro ⟨_, h⟩
          exact Or.inl ⟨hlt, h⟩
      · constructor
        · rintro (⟨h, _⟩ | ⟨b, ⟨hb, hj⟩, rfl⟩)
          · omega
          · rw [wordPath_two_pow_add, Nat.testBit_two_pow_add_eq, Nat.testBit_lt_two_pow hb]
            exact ⟨by omega, hj⟩
        · rintro ⟨ha, hj⟩
          obtain ⟨b, rfl⟩ : ∃ b, a = 2 ^ k + b := ⟨a - 2 ^ k, by omega⟩
          have hb : b < 2 ^ k := by omega
          rw [wordPath_two_pow_add, Nat.testBit_two_pow_add_eq, Nat.testBit_lt_two_pow hb] at hj
          exact Or.inr ⟨b, ⟨hb, hj⟩, rfl⟩

theorem words_pairwise (keep : Nat → Bool) (v : V) (t : Trie V) (k : Nat) :
    (words keep v t k).Pairwise (· < ·) := by
  induction k generalizing t with
  | zero => cases t with
    | leaf u =>
      simp only [words]
      split
      · exact List.pairwise_lt_range
      · exact .nil
    | node l r => exact .nil
  | succ k ih => cases t with
    | leaf u =>
      simp only [words]
      split
      · exact List.pairwise_lt_range
      · exact .nil
    | node l r =>
      simp only [words]
      refine List.pairwise_append.mpr ⟨ih l, ?_, ?_⟩
      · exact (ih r).map _ (fun a b h => by omega)
      · intro a ha b hb
        obtain ⟨c, _, rfl⟩ := List.mem_map.mp hb
        have := (mem_words.mp ha).1
        omega

theorem words_nodup (keep : Nat → Bool) (v : V) (t : Trie V) (k : Nat) :
    (words keep v t k).Nodup :=
  (words_pairwise keep v t k).imp (fun h => Nat.ne_of_lt h)

end Trie

/-! ## Lists of blocks -/

/-- The words of the blocks of size `b` that start at the members of `l`. -/
def blockWords (b : Nat) (l : List Nat) : List Nat := l.flatMap fun p => (List.range b).map (p + ·)

theorem length_blockWords (b : Nat) (l : List Nat) : (blockWords b l).length = l.length * b := by
  induction l with
  | nil => simp [blockWords]
  | cons p l ih =>
    simp only [blockWords, List.flatMap_cons, List.length_append, List.length_map,
      List.length_range, List.length_cons] at ih ⊢
    rw [ih]
    ring

theorem mem_blockWords {b : Nat} {l : List Nat} {a : Nat} :
    a ∈ blockWords b l ↔ ∃ p ∈ l, p ≤ a ∧ a < p + b := by
  simp only [blockWords, List.mem_flatMap, List.mem_map, List.mem_range]
  constructor
  · rintro ⟨p, hp, o, ho, rfl⟩
    exact ⟨p, hp, by omega, by omega⟩
  · rintro ⟨p, hp, h1, h2⟩
    exact ⟨p, hp, a - p, by omega, by omega⟩

theorem getElem_blockWords {b : Nat} (hb : 0 < b) (l : List Nat) (i : Nat)
    (hi : i / b < l.length) : (blockWords b l)[i]? = some (l[i / b] + i % b) := by
  induction l generalizing i with
  | nil => simp at hi
  | cons p l ih =>
    have hc : blockWords b (p :: l) = (List.range b).map (p + ·) ++ blockWords b l := rfl
    rw [hc]
    by_cases hlt : i < b
    · rw [List.getElem?_append_left (by simpa using hlt)]
      simp [Nat.div_eq_of_lt hlt, Nat.mod_eq_of_lt hlt, hlt]
    · have hdiv : i / b = (i - b) / b + 1 := by
        rw [Nat.div_eq_sub_div hb (by omega)]
      have hmod : i % b = (i - b) % b := Nat.mod_eq_sub_mod (by omega)
      rw [List.getElem?_append_right (by simp; omega)]
      simp only [List.length_map, List.length_range]
      rw [ih (i - b) (by simp only [List.length_cons] at hi; omega)]
      simp [hdiv, hmod]

/-- Aligned blocks that start at distinct members of an ascending list are disjoint. -/
theorem blockWords_nodup {b : Nat} {l : List Nat} (hl : l.Pairwise (fun p q => p + b ≤ q)) :
    (blockWords b l).Nodup := by
  induction l with
  | nil => exact .nil
  | cons p l ih =>
    obtain ⟨hp, hl⟩ := List.pairwise_cons.mp hl
    have hc : blockWords b (p :: l) = (List.range b).map (p + ·) ++ blockWords b l := rfl
    rw [hc]
    refine List.nodup_append.mpr ⟨?_, ih hl, ?_⟩
    · exact List.nodup_range.map (fun x y h => by omega)
    · intro x hx y hy hxy
      obtain ⟨o, ho, rfl⟩ := List.mem_map.mp hx
      obtain ⟨q, hq, h1, h2⟩ := mem_blockWords.mp hy
      have := hp q hq
      have := List.mem_range.mp ho
      omega

end Xmap.Lib
