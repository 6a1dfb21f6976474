import Xmap.Target.Lemmas.Allowed
import Xmap.Target.Lemmas.Emit

/-!
# The numbering of a list

The indices of a list below its count are in bijection with its eligible addresses. The index before
the first one has an address too, in the upper half of the address space.
-/

namespace Xmap.Target

open Xmap.Lib

theorem length_words_le (keep : Nat → Bool) (v : Nat) (t : Trie Nat) (k : Nat) :
    (Trie.words keep v t k).length ≤ 2 ^ k := by
  have hsub : (Trie.words keep v t k).toFinset ⊆ Finset.range (2 ^ k) := fun a ha =>
    Finset.mem_range.mpr (Trie.mem_words.mp (List.mem_toFinset.mp ha)).1
  have := Finset.card_le_card hsub
  rwa [List.toFinset_card_of_nodup (Trie.words_nodup keep v t k), Finset.card_range] at this

theorem length_radixFill_le (root : XmNode) (v : Nat) : (radixFill root v).length ≤ 2 ^ 20 := by
  refine (List.length_filterMap_le _ _).trans ?_
  rw [List.length_range]
  exact le_of_eq rfl

theorem testBit_lookupIndex (t : XmNode) (n ip mask : Nat) {i : Nat} (hi : i < 32)
    (h : ip.testBit i = true) : (t.lookupIndex n ip mask).testBit i = true := by
  induction t generalizing n ip mask with
  | leaf v c => rw [XmNode.lookupIndex, Nat.testBit_mod_two_pow]; simp [hi, h]
  | node l r v c ihl ihr =>
    rw [XmNode.lookupIndex]
    split
    · exact ihl _ _ _ h
    · exact ihr _ _ _ (by simp [h])

theorem lookupIndex_lt (t : XmNode) (n ip mask : Nat) : t.lookupIndex n ip mask < 2 ^ 32 := by
  induction t generalizing n ip mask with
  | leaf v c => exact Nat.mod_lt _ (by decide)
  | node l r v c ihl ihr =>
    rw [XmNode.lookupIndex]
    split
    · exact ihl _ _ _
    · exact ihr _ _ _

variable {h : Host} {args : WblistArgs}

/-- The addresses of a list in the order of their indices, in host byte order. -/
def numbering (h : Host) (args : WblistArgs) : List Nat :=
  indexList (wblistTree h args).root addrAllowed

theorem mem_numbering {a : Nat} : a ∈ numbering h args ↔ a < 2 ^ 32 ∧ Eligible h args a := by
  rw [numbering, mem_indexList, numbered_iff]

theorem numbering_nodup : (numbering h args).Nodup := indexList_nodup _ _

theorem builtList_count_eq :
    xmWblistCountAllowed (builtList h args) = (numbering h args).length := builtList_count

theorem length_numbering_lt : (numbering h args).length < 2 ^ 32 := by
  have hsub : (numbering h args).toFinset ⊆ (Finset.range (2 ^ 32)).erase 0 := by
    intro a ha
    obtain ⟨hlt, hne, _⟩ := mem_numbering.mp (List.mem_toFinset.mp ha)
    exact Finset.mem_erase.mpr ⟨hne, Finset.mem_range.mpr hlt⟩
  have := Finset.card_le_card hsub
  rw [List.toFinset_card_of_nodup numbering_nodup,
    Finset.card_erase_of_mem (Finset.mem_range.mpr (by decide)), Finset.card_range] at this
  omega

theorem builtList_settled : Settled (builtList h args) := by
  intro i
  have := xmIptreeLookupIndex_painted_fst (wblistTree h args) addrAllowed i
  simp only [xmWblistLookupIndex, builtList, this]

theorem addrAt_eq {i a : Nat} (hi : (numbering h args)[i]? = some a) :
    addrAt (builtList h args) i = ntohl a :=
  congrArg ntohl (xmIptreeLookupIndex_paint hi)

theorem elemAddr_of_valid {y : Nat} (hy : IsValid (numbering h args).length y) :
    ∃ a, (numbering h args)[y - 1]? = some a ∧ elemAddr (builtList h args) y = ntohl a ∧
      a < 2 ^ 32 ∧ Eligible h args a := by
  obtain ⟨h0, hle⟩ := hy
  have hlt : y - 1 < (numbering h args).length := by omega
  have hget := List.getElem?_eq_getElem hlt
  obtain ⟨ha, hel⟩ := mem_numbering.mp (List.getElem_mem hlt)
  exact ⟨_, hget, addrAt_eq hget, ha, hel⟩

theorem ntohl_ne_zero {a : Nat} (ha : a < 2 ^ 32) (h0 : a ≠ 0) : ntohl a ≠ 0 := by
  intro hz
  exact h0 (ntohl_inj ha (by omega) hz)

theorem Eligible.admits {a : Nat} (ha : Eligible h args a) : Admits h args a := by
  obtain ⟨h0, ⟨w, hw, _, hc⟩, hd⟩ := ha
  exact ⟨h0, ⟨w, hw, hc⟩, hd⟩

/-- The root of a list with an index is split: 0.0.0.0 is not allowed. -/
theorem wblistTree_splitAt (hne : numbering h args ≠ []) :
    (wblistTree h args).root.toTrie.SplitAt (bits 0) 0 := by
  obtain ⟨a, ha⟩ := List.exists_mem_of_ne_nil _ hne
  obtain ⟨hlt, hel⟩ := mem_numbering.mp ha
  by_contra hs
  have h0 : ¬ xmIptreeLookupIp (wblistTree h args) 0 = addrAllowed := by
    rw [wblistTree_lookup (by decide)]
    exact fun hadm => hadm.1 rfl
  rw [xmIptreeLookupIp_eq, Trie.lookup_congr_of_not_splitAt (agree_zero _ (bits a)) hs,
    ← xmIptreeLookupIp_eq, wblistTree_lookup hlt] at h0
  exact h0 hel.admits

/-- The stray address is in the upper half of the address space. -/
theorem stray_upper (hne : numbering h args ≠ []) :
    ∃ x, 2 ^ 31 ≤ x ∧ x < 2 ^ 32 ∧ stray (builtList h args) = ntohl x := by
  have hs := wblistTree_splitAt hne
  have hlen := length_radixFill_le (wblistTree h args).root addrAllowed
  generalize hr : (radixFill (wblistTree h args).root addrAllowed).length = len at hlen
  have hlook : (xmIptreeLookupIndex (xmIptreePaintValue (wblistTree h args) addrAllowed)
      (2 ^ 64 - 1) addrAllowed).2 =
      (XmNode.painted addrAllowed (wblistTree h args).root (2 ^ 32)).lookupIndex
        (2 ^ 64 - 1 - len * radixBlock) 0 topMask := by
    simp only [xmIptreeLookupIndex, xmIptreePaintValue_eq, Bool.not_true, bne_self_eq_false,
      Bool.or_self, Bool.false_eq_true, ↓reduceIte, hr]
    rw [dif_neg (by rw [radixBlock_eq]; omega)]
  refine ⟨_, ?_, lookupIndex_lt _ _ _ _, congrArg ntohl hlook⟩
  apply Nat.ge_two_pow_of_testBit
  cases hroot : (wblistTree h args).root with
  | leaf v c => simp [hroot] at hs
  | node l r v c =>
    -- the left half has at most 2^31 numbered addresses, so the lookup goes right
    have hl := XmNode.painted_count addrAllowed l 31
    have hle := length_words_le (XmNode.keepAt true) addrAllowed l.toTrie 31
    simp only [XmNode.painted, XmNode.countIpsRecurse, XmNode.two_pow_succ_shiftRight] at hl ⊢
    rw [XmNode.lookupIndex, if_neg (by rw [hl, radixBlock_eq]; omega)]
    exact testBit_lookupIndex _ _ _ _ (by omega) (by decide)

theorem builtList_ready (hne : numbering h args ≠ []) :
    Ready (numbering h args).length (builtList h args) where
  maxIndex_lt := length_numbering_lt
  settled := builtList_settled
  addr_ne y hy := by
    obtain ⟨a, _, he, ha, hel⟩ := elemAddr_of_valid hy
    rw [he]
    exact ntohl_ne_zero ha hel.1
  stray_ne := by
    obtain ⟨x, hx, hlt, he⟩ := stray_upper hne
    rw [he]
    exact ntohl_ne_zero hlt (by omega)

/-- A list that was created is the one built, and it has an index. -/
theorem xmWblistCreate_eq_some {wblist : XmWblist} :
    xmWblistCreate h args = some wblist ↔ wblist = builtList h args ∧ numbering h args ≠ [] := by
  rw [xmWblistCreate_eq, builtList_count_eq]
  by_cases hn : (numbering h args).length = 0
  · simp [List.length_eq_zero_iff.mp hn]
  · rw [if_neg hn, Option.some.injEq, eq_comm]
    exact ⟨fun he => ⟨he, fun hnil => hn (by rw [hnil]; rfl)⟩, fun he => he.1⟩

end Xmap.Target
