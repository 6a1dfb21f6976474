import Mathlib.Data.List.Nodup
import Xmap.Target.Lemmas.IpTree

/-!
# Indexed lookup in a painted tree

A painted tree numbers the words of its value: first those of the radix blocks, then the others in
ascending order. The list in that order has no repetition and holds exactly the addresses whose leaf
is met within 32 bits; a count is its length and an indexed lookup reads it.
-/

namespace Xmap.Target

open Xmap.Lib

namespace XmNode

/-- The tree that a count with `paint` and `exclude_radix` leaves behind. -/
abbrev painted (val : Nat) (n : XmNode) (size : Nat) : XmNode :=
  (n.countIpsRecurse val true true size).1

theorem painted_count (val : Nat) (n : XmNode) (k : Nat) :
    (painted val n (2 ^ k)).count = (Trie.words (keepAt true) val n.toTrie k).length := by
  rw [painted, countIpsRecurse_count, countIpsRecurse_eq]

theorem or_eq_add_of_dvd {ip n k : Nat} (hip : 2 ^ k ∣ ip) (hn : n < 2 ^ k) :
    ip ||| n = ip + n := by
  obtain ⟨q, rfl⟩ := hip
  exact (Nat.two_pow_add_eq_or_of_lt hn q).symm

/-- `_lookup_index` reads the ascending list of the words that the painted counts include. -/
theorem lookupIndex_painted {val k m ip w : Nat} (n : XmNode) (hip : 2 ^ k ∣ ip)
    (hlt : ip + 2 ^ k ≤ 2 ^ 32)
    (hw : (Trie.words (keepAt true) val n.toTrie k)[m]? = some w) :
    (painted val n (2 ^ k)).lookupIndex m ip (maskAt k) = ip + w := by
  induction k generalizing n m ip w with
  | zero => cases n with
    | leaf v c =>
      have hm : m = 0 ∧ w = 0 := by
        simp only [toTrie_leaf, Trie.words] at hw
        split at hw
        · cases m <;> simp_all
        · simp at hw
      obtain ⟨rfl, rfl⟩ := hm
      simp only [painted, countIpsRecurse, lookupIndex, Nat.or_zero, Nat.add_zero]
      exact Nat.mod_eq_of_lt (by omega)
    | node l r v c => simp [Trie.words] at hw
  | succ k ih => cases n with
    | leaf v c =>
      have hm : w = m ∧ m < 2 ^ (k + 1) := by
        simp only [toTrie_leaf, Trie.words] at hw
        split at hw
        · obtain ⟨h, rfl⟩ := List.getElem?_eq_some_iff.mp hw
          rw [List.length_range] at h
          exact ⟨List.getElem_range .., h⟩
        · simp at hw
      obtain ⟨rfl, hm⟩ := hm
      simp only [painted, countIpsRecurse, lookupIndex]
      rw [or_eq_add_of_dvd hip hm]
      exact Nat.mod_eq_of_lt (by omega)
    | node l r v c =>
      have hk : 2 ^ (k + 1) = 2 ^ k + 2 ^ k := by ring
      have hp : painted val (node l r v c) (2 ^ (k + 1)) =
          node (painted val l (2 ^ k)) (painted val r (2 ^ k)) v
            ((countIpsRecurse val true true l (2 ^ k)).2 +
              (countIpsRecurse val true true r (2 ^ k)).2) := by
        simp [painted, countIpsRecurse, two_pow_succ_shiftRight]
      have hdvd : 2 ^ k ∣ ip := dvd_trans (pow_dvd_pow 2 (by omega)) hip
      simp only [toTrie_node, Trie.words] at hw
      rw [hp, lookupIndex, painted_count, maskAt_shiftRight, Nat.add_sub_cancel]
      by_cases hm : m < (Trie.words (keepAt true) val l.toTrie k).length
      · rw [if_pos hm]
        rw [List.getElem?_append_left hm] at hw
        exact ih l hdvd (by omega) hw
      · rw [if_neg hm]
        rw [List.getElem?_append_right (by omega), List.getElem?_map] at hw
        obtain ⟨u, hu, rfl⟩ := Option.map_eq_some_iff.mp hw
        have hmask : ip ||| maskAt (k + 1) = ip + 2 ^ k :=
          or_eq_add_of_dvd hip (by simp only [maskAt]; omega)
        rw [hmask, ih r ((Nat.dvd_add_right hdvd).mpr dvd_rfl) (by omega) hu]
        ring

end XmNode

/-! ## The radix array -/

theorem radixBlock_eq : radixBlock = 2 ^ 12 := rfl

theorem mem_radixFill {root : XmNode} {val p : Nat} :
    p ∈ radixFill root val ↔
      ∃ i < 2 ^ 20, p = i * 2 ^ 12 ∧ root.toTrie.ReachesWithin 20 val (bits p) := by
  have h1 : (1 <<< radixLength : Nat) = 2 ^ 20 := rfl
  have h2 : 32 - radixLength = 12 := rfl
  simp only [radixFill, List.mem_filterMap, List.mem_range, h1, h2]
  constructor
  · rintro ⟨i, hi, hp⟩
    split at hp
    · rename_i hl
      cases hp
      rw [XmNode.topMask_eq, XmNode.lookupNode_leaf_iff] at hl
      exact ⟨i, hi, Nat.shiftLeft_eq i 12, hl⟩
    · cases hp
  · rintro ⟨i, hi, rfl, hl⟩
    refine ⟨i, hi, ?_⟩
    rw [← Nat.shiftLeft_eq] at hl ⊢
    rw [if_pos]
    rwa [XmNode.topMask_eq, XmNode.lookupNode_leaf_iff]

theorem dvd_of_mem_radixFill {root : XmNode} {val p : Nat} (h : p ∈ radixFill root val) :
    2 ^ 12 ∣ p := by
  obtain ⟨i, _, rfl, _⟩ := mem_radixFill.mp h
  exact Nat.dvd_mul_left _ _

theorem radixFill_pairwise (root : XmNode) (val : Nat) :
    (radixFill root val).Pairwise (fun p q => p + 2 ^ 12 ≤ q) := by
  refine List.Pairwise.filterMap _ ?_ List.pairwise_lt_range
  intro i j hij p hp q hq
  have hp' : p = i * 2 ^ 12 := by
    dsimp only at hp
    split at hp
    · cases hp; exact Nat.shiftLeft_eq i 12
    · cases hp
  have hq' : q = j * 2 ^ 12 := by
    dsimp only at hq
    split at hq
    · cases hq; exact Nat.shiftLeft_eq j 12
    · cases hq
  omega

theorem radixFill_congr {root root' : XmNode} (h : root.toTrie = root'.toTrie) (val : Nat) :
    radixFill root val = radixFill root' val := by
  unfold radixFill
  refine List.filterMap_congr fun i _ => ?_
  have hl := XmNode.lookupNode_leaf_iff (d := radixLength) (k := 32) root
    (i <<< (32 - radixLength)) val
  rw [h, ← XmNode.lookupNode_leaf_iff, ← XmNode.topMask_eq] at hl
  exact if_congr hl rfl rfl

/-! ## The numbering -/

/-- The addresses with value `val` in the order of a painted tree: the radix blocks, then the rest
in ascending order. -/
def indexList (root : XmNode) (val : Nat) : List Nat :=
  blockWords (2 ^ 12) (radixFill root val) ++
    Trie.words (XmNode.keepAt true) val root.toTrie 32

/-- An address is numbered when its leaf has the value and is met within its 32 bits. -/
def Numbered (root : XmNode) (val a : Nat) : Prop :=
  a < 2 ^ 32 ∧ root.toTrie.ReachesWithin 32 val (bits a)

theorem mem_words_true {root : XmNode} {val a : Nat} :
    a ∈ Trie.words (XmNode.keepAt false) val root.toTrie 32 ↔ Numbered root val a := by
  simp [Trie.mem_words, Numbered, Trie.ReachesWithin, XmNode.keepAt]

theorem mem_blockWords_radixFill {root : XmNode} {val a : Nat} :
    a ∈ blockWords (2 ^ 12) (radixFill root val) ↔
      a < 2 ^ 32 ∧ ∃ j, root.toTrie.reach 32 (bits a) = some (val, j) ∧ 12 ≤ j := by
  rw [mem_blockWords]
  have hagree : ∀ p i : Nat, p = i * 2 ^ 12 → i < 2 ^ 20 → a < 2 ^ 32 → p ≤ a → a < p + 2 ^ 12 →
      Agree 20 (bits p) (bits a) := by
    intro p i hp hi ha h1 h2
    refine (agree_wordPath (by omega) (by omega) ha).mpr ?_
    omega
  constructor
  · rintro ⟨p, hp, h1, h2⟩
    obtain ⟨i, hi, hpi, j, hj⟩ := mem_radixFill.mp hp
    have ha : a < 2 ^ 32 := by omega
    refine ⟨ha, j + 12, ?_, by omega⟩
    rw [show 32 = 20 + 12 from rfl, Trie.reach_add, ← hj]
    exact (Trie.reach_congr (hagree p i hpi hi ha h1 h2)).symm
  · rintro ⟨ha, j, hj, h12⟩
    obtain ⟨j, rfl⟩ : ∃ j', j = j' + 12 := ⟨j - 12, by omega⟩
    rw [show 32 = 20 + 12 from rfl, Trie.reach_add] at hj
    refine ⟨a / 2 ^ 12 * 2 ^ 12, mem_radixFill.mpr ⟨a / 2 ^ 12, by omega, rfl, j, ?_⟩, by omega,
      by omega⟩
    rw [← hj]
    exact Trie.reach_congr (hagree _ _ rfl (by omega) ha (by omega) (by omega))

theorem mem_indexList {root : XmNode} {val a : Nat} :
    a ∈ indexList root val ↔ Numbered root val a := by
  rw [indexList, List.mem_append, mem_blockWords_radixFill, Trie.mem_words, Numbered,
    Trie.ReachesWithin]
  constructor
  · rintro (⟨ha, j, hj, _⟩ | ⟨ha, j, hj, _⟩)
    · exact ⟨ha, j, hj⟩
    · exact ⟨ha, j, hj⟩
  · rintro ⟨ha, j, hj⟩
    by_cases h12 : 12 ≤ j
    · exact Or.inl ⟨ha, j, hj, h12⟩
    · exact Or.inr ⟨ha, j, hj, by simp only [XmNode.keepAt]; simp; omega⟩

theorem indexList_nodup (root : XmNode) (val : Nat) : (indexList root val).Nodup := by
  refine List.nodup_append.mpr ⟨blockWords_nodup (radixFill_pairwise root val),
    Trie.words_nodup _ _ _ _, ?_⟩
  rintro a ha b hb rfl
  obtain ⟨_, j, hj, h12⟩ := mem_blockWords_radixFill.mp ha
  obtain ⟨_, j', hj', hk⟩ := Trie.mem_words.mp hb
  rw [hj] at hj'
  cases hj'
  simp only [XmNode.keepAt, Bool.not_true, Bool.false_or, decide_eq_true_eq] at hk
  omega

/-- The plain count and the numbering have the same length. -/
theorem length_words_eq_indexList (root : XmNode) (val : Nat) :
    (Trie.words (XmNode.keepAt false) val root.toTrie 32).length = (indexList root val).length :=
  ((List.perm_ext_iff_of_nodup (Trie.words_nodup _ _ _ _) (indexList_nodup root val)).mpr
    fun a => by rw [mem_words_true, mem_indexList]).length_eq

theorem indexList_congr {root root' : XmNode} (h : root.toTrie = root'.toTrie) (val : Nat) :
    indexList root val = indexList root' val := by
  rw [indexList, indexList, radixFill_congr h, h]

/-! ## The operations of the tree -/

theorem xmIptreePaintValue_toTrie (t : XmIptree) (val : Nat) :
    (xmIptreePaintValue t val).root.toTrie = t.root.toTrie :=
  XmNode.countIpsRecurse_toTrie val true true t.root (2 ^ 32)

theorem xmIptreePaintValue_eq (t : XmIptree) (val : Nat) :
    xmIptreePaintValue t val =
      { root := XmNode.painted val t.root (2 ^ 32), radix := radixFill t.root val,
        painted := true, paintValue := val } := by
  have h := radixFill_congr (xmIptreePaintValue_toTrie t val) val
  rw [xmIptreePaintValue] at h ⊢
  simp only [h]

/-- The count of a tree just painted is the length of its numbering. -/
theorem xmIptreeCountIps_paint (t : XmIptree) (val : Nat) :
    xmIptreeCountIps (xmIptreePaintValue t val) val = (indexList t.root val).length := by
  have hc := XmNode.painted_count val t.root 32
  simp only [xmIptreeCountIps, xmIptreePaintValue_eq, Bool.true_and, beq_self_eq_true, ↓reduceIte]
  rw [hc, indexList, List.length_append, length_blockWords, radixBlock_eq]
  omega

/-- The count of a tree not painted for the value is the length of its numbering. -/
theorem xmIptreeCountIps_plain {t : XmIptree} {val : Nat} (h : t.painted = false) :
    xmIptreeCountIps t val = (indexList t.root val).length := by
  simp only [xmIptreeCountIps, h, Bool.false_and, Bool.false_eq_true, ↓reduceIte]
  rw [XmNode.countIpsRecurse_eq, length_words_eq_indexList]

theorem xmIptreeLookupIndex_painted_fst (t : XmIptree) (val i : Nat) :
    (xmIptreeLookupIndex (xmIptreePaintValue t val) i val).1 = xmIptreePaintValue t val := by
  simp only [xmIptreeLookupIndex, xmIptreePaintValue, Bool.not_true, bne_self_eq_false,
    Bool.or_self, Bool.false_eq_true, ↓reduceIte]
  split <;> rfl

/-- An indexed lookup in a painted tree reads the numbering. -/
theorem xmIptreeLookupIndex_paint {t : XmIptree} {val i a : Nat}
    (h : (indexList t.root val)[i]? = some a) :
    (xmIptreeLookupIndex (xmIptreePaintValue t val) i val).2 = a := by
  simp only [xmIptreeLookupIndex, xmIptreePaintValue_eq, Bool.not_true, bne_self_eq_false,
    Bool.or_self, Bool.false_eq_true, ↓reduceIte, radixBlock_eq]
  rw [indexList] at h
  split
  · rename_i hi
    have hlen := length_blockWords (2 ^ 12) (radixFill t.root val)
    have hlt : i < (blockWords (2 ^ 12) (radixFill t.root val)).length := by
      rw [hlen]; omega
    rw [List.getElem?_append_left hlt, getElem_blockWords (by omega) _ _ hi] at h
    cases h
    exact XmNode.or_eq_add_of_dvd (dvd_of_mem_radixFill (List.getElem_mem hi)) (by omega)
  · rename_i hi
    have hlen := length_blockWords (2 ^ 12) (radixFill t.root val)
    rw [List.getElem?_append_right (by rw [hlen]; omega), hlen] at h
    have := XmNode.lookupIndex_painted t.root (dvd_zero _) (by omega) h
    rw [Nat.zero_add] at this
    rw [XmNode.topMask_eq, this]

end Xmap.Target
