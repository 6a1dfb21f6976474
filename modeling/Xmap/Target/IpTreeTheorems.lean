import Xmap.Target.Lemmas.IpTreeIndex

/-!
# Theorems on counts and indexed lookups

Whatever has been done to a tree, a count is the plain one, and the indices below it number addresses that
have the value.
-/

namespace Xmap.Target

open Xmap.Lib

/-- A call on a tree. -/
inductive TreeOp where
  | add (pfx : Nat) (len : Int) (value : Nat)
  | paintValue (value : Nat)
  | lookupIp (address : Nat)
  | lookupIndex (index value : Nat)
  | countIps (value : Nat)
deriving DecidableEq, Repr

namespace TreeOp

/-- The tree after a call. -/
def run (t : XmIptree) : TreeOp → XmIptree
  | add pfx len value => xmIptreeAdd t pfx len value
  | paintValue value => xmIptreePaintValue t value
  | lookupIp _ => t
  | lookupIndex index value => (xmIptreeLookupIndex t index value).1
  | countIps _ => t

def runAll (value : Nat) (ops : List TreeOp) : XmIptree := ops.foldl run (xmIptreeCreate value)

end TreeOp

/-- What `_count_ips_recurse` counts without painting. -/
def plainCount (t : XmIptree) (value : Nat) : Nat :=
  (t.root.countIpsRecurse value false false (2 ^ 32)).2

/-- A tree that is marked as painted is as painting has left it. -/
def XmIptree.Fresh (t : XmIptree) : Prop :=
  t.painted = true → ∃ u, t = xmIptreePaintValue u t.paintValue

/-- The indices below the count number different addresses, and these have the value. -/
structure XmIptree.Numbers (t : XmIptree) (value : Nat) : Prop where
  injective : ∀ i < xmIptreeCountIps t value, ∀ j < xmIptreeCountIps t value,
    (xmIptreeLookupIndex t i value).2 = (xmIptreeLookupIndex t j value).2 → i = j
  value : ∀ i < xmIptreeCountIps t value,
    xmIptreeLookupIp t (xmIptreeLookupIndex t i value).2 = value

section
variable {t : XmIptree} {v i a : Nat}

/-! ## Fresh trees -/

theorem xmIptreeCreate_fresh (value : Nat) : (xmIptreeCreate value).Fresh := by
  intro h
  cases h

theorem xmIptreePaintValue_fresh (t : XmIptree) (v : Nat) : (xmIptreePaintValue t v).Fresh :=
  fun _ => ⟨t, rfl⟩

theorem xmIptreeLookupIndex_fst (t : XmIptree) (i v : Nat) :
    (xmIptreeLookupIndex t i v).1 = xmIptreePaintValue t v ∨ (xmIptreeLookupIndex t i v).1 = t := by
  by_cases h : (!t.painted || t.paintValue != v) = true
  · apply Or.inl
    simp only [xmIptreeLookupIndex, if_pos h]
    split <;> rfl
  · apply Or.inr
    simp only [xmIptreeLookupIndex, if_neg h]
    split <;> rfl

theorem XmIptree.Fresh.run (h : t.Fresh) (op : TreeOp) : (op.run t).Fresh := by
  cases op with
  | add pfx len value =>
    intro hp
    cases hp
  | paintValue value => exact xmIptreePaintValue_fresh t value
  | lookupIp address => exact h
  | lookupIndex index value =>
    cases xmIptreeLookupIndex_fst t index value with
    | inl hpaint =>
      rw [TreeOp.run, hpaint]
      exact xmIptreePaintValue_fresh t value
    | inr hsame =>
      rw [TreeOp.run, hsame]
      exact h
  | countIps value => exact h

theorem runAll_fresh (value : Nat) (ops : List TreeOp) : (TreeOp.runAll value ops).Fresh := by
  induction ops using List.reverseRecOn with
  | nil => exact xmIptreeCreate_fresh value
  | append_singleton ops op ih =>
    rw [TreeOp.runAll, List.foldl_append]
    exact ih.run op

/-! ## Counts and lookups of a fresh tree -/

theorem plainCount_eq (t : XmIptree) (v : Nat) : plainCount t v = (indexList t.root v).length := by
  rw [plainCount, XmNode.countIpsRecurse_eq, length_words_eq_indexList]

theorem XmIptree.Fresh.countIps (h : t.Fresh) (v : Nat) : xmIptreeCountIps t v = plainCount t v := by
  by_cases hp : (t.painted && t.paintValue == v) = true
  · obtain ⟨hpainted, hv⟩ := Bool.and_eq_true_iff.mp hp
    obtain ⟨u, hu⟩ := h hpainted
    rw [eq_of_beq hv] at hu
    rw [hu, xmIptreeCountIps_paint, plainCount_eq,
      indexList_congr (xmIptreePaintValue_toTrie u v)]
  · rw [xmIptreeCountIps, if_neg hp]
    rfl

theorem XmIptree.Fresh.lookupIndex (h : t.Fresh) (ha : (indexList t.root v)[i]? = some a) :
    (xmIptreeLookupIndex t i v).2 = a := by
  by_cases hp : (!t.painted || t.paintValue != v) = true
  · have hpaint : xmIptreeLookupIndex t i v = xmIptreeLookupIndex (xmIptreePaintValue t v) i v := by
      simp only [xmIptreeLookupIndex, hp, if_true, xmIptreePaintValue, Bool.not_true,
        bne_self_eq_false, Bool.or_self, Bool.false_eq_true, if_false]
    rw [hpaint]
    exact xmIptreeLookupIndex_paint ha
  · simp only [Bool.or_eq_true, Bool.not_eq_true', bne_iff_ne, ne_eq, not_or, Bool.not_eq_false,
      not_not] at hp
    obtain ⟨hpainted, hv⟩ := hp
    obtain ⟨u, hu⟩ := h hpainted
    rw [hv] at hu
    rw [hu, indexList_congr (xmIptreePaintValue_toTrie u v)] at ha
    rw [hu]
    exact xmIptreeLookupIndex_paint ha

theorem XmIptree.Fresh.numbers (h : t.Fresh) (v : Nat) : t.Numbers v := by
  have hget : ∀ i < xmIptreeCountIps t v,
      (indexList t.root v)[i]? = some (xmIptreeLookupIndex t i v).2 := by
    intro i hi
    rw [h.countIps, plainCount_eq] at hi
    rw [h.lookupIndex (List.getElem?_eq_getElem hi)]
    exact List.getElem?_eq_getElem hi
  constructor
  · intro i hi j hj heq
    rw [h.countIps, plainCount_eq] at hi
    have hij := (hget i (by rwa [h.countIps, plainCount_eq])).trans
      ((congrArg some heq).trans (hget j hj).symm)
    exact (List.getElem?_inj hi (indexList_nodup t.root v)).mp hij
  · intro i hi
    obtain ⟨_, hreach⟩ := mem_indexList.mp (List.mem_of_getElem? (hget i hi))
    rw [xmIptreeLookupIp, XmNode.topMask_eq, XmNode.lookupIp_eq]
    exact (Trie.reachesWithin_iff.mp hreach).1

end

/-! ## Runs -/

/-- In every run, the indexed lookups of every value never leave its addresses and never repeat. -/
theorem xmIptreeLookupIndex_numbers (value : Nat) (ops : List TreeOp) (v : Nat) :
    (TreeOp.runAll value ops).Numbers v :=
  (runAll_fresh value ops).numbers v

/-- In every run, every count is the plain count of the tree as it then is. -/
theorem xmIptreeCountIps_plainCount (value : Nat) (ops : List TreeOp) (v : Nat) :
    xmIptreeCountIps (TreeOp.runAll value ops) v = plainCount (TreeOp.runAll value ops) v :=
  (runAll_fresh value ops).countIps v

end Xmap.Target
