import Mathlib.Data.Nat.Bitwise
import Xmap.Lib.TrieWords
import Xmap.Target.IpTree

/-!
# The address tree as a trie

The tree without its counts and without the values of its inner nodes is a trie over the bits of
an address. Every operation of `xm_iptree` is one of the trie.
-/

namespace Xmap.Target

open Xmap.Lib

/-- The bits of an address, highest first. -/
abbrev bits (a : Nat) : Path := wordPath 32 a

namespace XmNode

/-- The tree without counts and without the values of inner nodes. -/
def toTrie : XmNode → Trie Nat
  | leaf v _ => .leaf v
  | node l r _ _ => .node l.toTrie r.toTrie

@[simp] theorem toTrie_leaf (v c : Nat) : (leaf v c).toTrie = .leaf v := rfl
@[simp] theorem toTrie_node (l r : XmNode) (v c : Nat) :
    (node l r v c).toTrie = .node l.toTrie r.toTrie := rfl

@[simp] theorem createLeaf_toTrie (v : Nat) : (createLeaf v).toTrie = .leaf v := rfl

/-- `_convert_to_leaf` changes no node: it returns at once on an inner node, and a leaf is a leaf. -/
@[simp] theorem convertToLeaf_eq (n : XmNode) : n.convertToLeaf = n := by
  cases n <;> rfl

theorem discardEqual_toTrie (n : XmNode) : n.discardEqual.toTrie = n.toTrie := by
  cases n with
  | leaf v c => rfl
  | node l r v c =>
    simp only [discardEqual, convertToLeaf_eq]
    split <;> rfl

/-! ## Masks -/

/-- The mask when `k` bits of the address are left. -/
def maskAt : Nat → Nat
  | 0 => 0
  | k + 1 => 2 ^ k

theorem topMask_eq : topMask = maskAt 32 := rfl

theorem maskAt_shiftRight (k : Nat) : maskAt k >>> 1 = maskAt (k - 1) := by
  match k with
  | 0 => rfl
  | 1 => rfl
  | k + 2 =>
    simp only [maskAt, Nat.shiftRight_eq_div_pow]
    rw [Nat.pow_succ]
    simp

theorem and_maskAt (k a : Nat) : a &&& maskAt k ≠ 0 ↔ wordPath k a 0 = true := by
  cases k with
  | zero => simp [maskAt, wordPath]
  | succ k =>
    simp only [maskAt, Nat.and_two_pow, wordPath_zero]
    cases a.testBit k <;> simp

theorem wordPath_tail' (k a : Nat) : (wordPath k a).tail = wordPath (k - 1) a := by
  cases k with
  | zero => funext i; simp [wordPath]
  | succ k => exact wordPath_tail k a

theorem bits_shiftLeft (a : Nat) : bits ((a <<< 1) % 2 ^ 32) = (bits a).tail := by
  funext i
  simp only [wordPath, Path.tail_apply, Nat.testBit_mod_two_pow, Nat.testBit_shiftLeft]
  by_cases hi : i + 1 < 32
  · have e : 32 - 1 - i - 1 = 32 - 1 - (i + 1) := by omega
    simp [hi, e, show i < 32 by omega, show 1 ≤ 31 - i by omega, show 31 - i < 32 by omega]
  · simp [hi, show ¬ 1 ≤ 31 - i by omega]

/-! ## Insertion and lookup -/

theorem setAt_toTrie (len : Nat) (n : XmNode) (pfx val : Nat) :
    (setAt len n pfx val).toTrie = Trie.insert val len n.toTrie (bits pfx) := by
  induction len generalizing n pfx with
  | zero => cases n <;> simp [setAt, setValue, Trie.insert]
  | succ len ih =>
    have hbit := and_maskAt 32 pfx
    rw [← topMask_eq] at hbit
    cases n with
    | leaf v c =>
      by_cases hv : v = val
      · simp [setAt, Trie.insert, hv]
      · by_cases hb : pfx &&& topMask ≠ 0
        · rw [setAt, if_neg hv, if_pos hb, discardEqual_toTrie, toTrie_node, ih, bits_shiftLeft,
            toTrie_leaf, Trie.insert, if_neg hv, if_pos (hbit.mp hb), createLeaf_toTrie]
        · rw [setAt, if_neg hv, if_neg hb, discardEqual_toTrie, toTrie_node, ih, bits_shiftLeft,
            toTrie_leaf, Trie.insert, if_neg hv, if_neg (mt hbit.mpr hb), createLeaf_toTrie]
    | node l r v c =>
      by_cases hb : pfx &&& topMask ≠ 0
      · rw [setAt, if_pos hb, discardEqual_toTrie, toTrie_node, ih, bits_shiftLeft, toTrie_node,
          Trie.insert, if_pos (hbit.mp hb)]
      · rw [setAt, if_neg hb, discardEqual_toTrie, toTrie_node, ih, bits_shiftLeft, toTrie_node,
          Trie.insert, if_neg (mt hbit.mpr hb)]

theorem lookupIp_eq (n : XmNode) (k a : Nat) :
    n.lookupIp a (maskAt k) = n.toTrie.lookup (wordPath k a) := by
  induction n generalizing k with
  | leaf v c => rfl
  | node l r v c ihl ihr =>
    by_cases hb : a &&& maskAt k ≠ 0
    · rw [lookupIp, if_pos hb, maskAt_shiftRight, ihr, toTrie_node, Trie.lookup,
        (and_maskAt k a).mp hb, wordPath_tail']
      simp
    · rw [lookupIp, if_neg hb, maskAt_shiftRight, ihl, toTrie_node, Trie.lookup,
        if_neg (mt (and_maskAt k a).mpr hb), wordPath_tail']

/-- `_lookup_node` ends at a leaf with value `val` exactly when the path reaches one that early. -/
theorem lookupNode_leaf_iff {d k : Nat} (n : XmNode) (pfx val : Nat) :
    ((lookupNode d n pfx (maskAt k)).isLeaf = true ∧ (lookupNode d n pfx (maskAt k)).value = val) ↔
      n.toTrie.ReachesWithin d val (wordPath k pfx) := by
  induction d generalizing n k with
  | zero => cases n <;> simp [lookupNode, isLeaf, XmNode.value, Trie.ReachesWithin, Trie.reach]
  | succ d ih => cases n with
    | leaf v c => simp [lookupNode, isLeaf, XmNode.value, Trie.ReachesWithin, Trie.reach]
    | node l r v c =>
      by_cases hb : pfx &&& maskAt k ≠ 0
      · rw [lookupNode, if_pos hb, maskAt_shiftRight, ih, toTrie_node, Trie.ReachesWithin,
          Trie.ReachesWithin, Trie.reach, if_pos ((and_maskAt k pfx).mp hb), wordPath_tail']
      · rw [lookupNode, if_neg hb, maskAt_shiftRight, ih, toTrie_node, Trie.ReachesWithin,
          Trie.ReachesWithin, Trie.reach, if_neg (mt (and_maskAt k pfx).mpr hb), wordPath_tail']

/-! ## Counting -/

/-- The leaves that a count includes, by the number of bits left. -/
def keepAt (excludeRadix : Bool) (j : Nat) : Bool := !excludeRadix || decide (j < 12)

theorem countIpsRecurse_size_zero (val : Nat) (paint ex : Bool) (n : XmNode) :
    (n.countIpsRecurse val paint ex 0).2 = 0 := by
  induction n with
  | leaf v c => simp [countIpsRecurse]
  | node l r v c ihl ihr => simp [countIpsRecurse, ihl, ihr]

theorem countIpsRecurse_toTrie (val : Nat) (paint ex : Bool) (n : XmNode) (size : Nat) :
    (n.countIpsRecurse val paint ex size).1.toTrie = n.toTrie := by
  induction n generalizing size with
  | leaf v c => simp [countIpsRecurse]
  | node l r v c ihl ihr => simp [countIpsRecurse, ihl, ihr]

theorem countIpsRecurse_count (val : Nat) (ex : Bool) (n : XmNode) (size : Nat) :
    (n.countIpsRecurse val true ex size).1.count = (n.countIpsRecurse val true ex size).2 := by
  cases n <;> simp [countIpsRecurse, XmNode.count]

theorem two_pow_succ_shiftRight (k : Nat) : 2 ^ (k + 1) >>> 1 = 2 ^ k := by
  rw [Nat.shiftRight_eq_div_pow, Nat.pow_succ]
  simp

/-- A count is the number of words whose leaf has the value and is met within the word. -/
theorem countIpsRecurse_eq (val : Nat) (paint ex : Bool) (n : XmNode) (k : Nat) :
    (n.countIpsRecurse val paint ex (2 ^ k)).2 =
      (Trie.words (keepAt ex) val n.toTrie k).length := by
  induction k generalizing n with
  | zero => cases n with
    | leaf v c =>
      cases ex <;> by_cases hv : v = val <;>
        simp [countIpsRecurse, Trie.words, keepAt, hv, radixBlock, radixLength]
    | node l r v c =>
      simp [countIpsRecurse, Trie.words, countIpsRecurse_size_zero]
  | succ k ih => cases n with
    | leaf v c =>
      have hk : radixBlock ≤ 2 ^ (k + 1) ↔ ¬ k + 1 < 12 := by
        rw [show radixBlock = 2 ^ 12 from rfl, Nat.pow_le_pow_iff_right (by omega)]
        omega
      by_cases hv : v = val
      · cases ex
        · simp [countIpsRecurse, Trie.words, keepAt, hv]
        · by_cases h12 : k + 1 < 12
          · simp [countIpsRecurse, Trie.words, keepAt, hv, hk, h12]
          · simp [countIpsRecurse, Trie.words, keepAt, hv, hk, h12]
      · simp [countIpsRecurse, Trie.words, hv]
    | node l r v c =>
      simp [countIpsRecurse, Trie.words, two_pow_succ_shiftRight, ih]

end XmNode

end Xmap.Target
