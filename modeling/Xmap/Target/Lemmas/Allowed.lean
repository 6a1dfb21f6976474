import Xmap.Target.Lemmas.Writes

/-!
# The addresses that a list allows

The tree of `xm_wblist_create` is the whitelist with the blacklist on top of it. An address is allowed
when it lies in an effective whitelist entry and in no effective blacklist entry, and it is numbered
when that whitelist entry is no longer than an address.
-/

namespace Xmap.Target

open Xmap.Lib

section
variable (h : Host) (args : WblistArgs)

def whitelistWrites : List Write :=
  writes h (sourceEntries h args.whitelistFilename args.whitelistEntries)

def blacklistWrites : List Write :=
  writes h (sourceEntries h args.blacklistFilename args.blacklistEntries)

/-- The whitelist entries that take effect: those that overlap no effective one before them. Without
a whitelist this is the whole address space. -/
def effectiveWhitelist : List Block :=
  if args.hasWhitelist then effective [Block.whole] [] ((whitelistWrites h args).map Write.block)
  else [Block.whole]

/-- The blacklist entries that take effect: those that overlap no effective one before them and have
no effective whitelist entry strictly inside. -/
def effectiveBlacklist : List Block :=
  effective (effectiveWhitelist h args) [] ((blacklistWrites h args).map Write.block)

/-- An address that the list allows. -/
def Admits (a : Nat) : Prop :=
  a ≠ 0 ∧ (∃ w ∈ effectiveWhitelist h args, w.Covers (bits a)) ∧
    ¬ ∃ d ∈ effectiveBlacklist h args, d.Covers (bits a)

/-- An allowed address whose whitelist entry has at most 32 bits. -/
def Eligible (a : Nat) : Prop :=
  a ≠ 0 ∧ (∃ w ∈ effectiveWhitelist h args, w.len ≤ 32 ∧ w.Covers (bits a)) ∧
    ¬ ∃ d ∈ effectiveBlacklist h args, d.Covers (bits a)

instance (a : Nat) : Decidable (Admits h args a) := inferInstanceAs (Decidable (_ ∧ _ ∧ ¬ _))

instance (a : Nat) : Decidable (Eligible h args a) := inferInstanceAs (Decidable (_ ∧ _ ∧ ¬ _))

end

variable {h : Host} {args : WblistArgs}

/-! ## The layers -/

theorem mem_effectiveWhitelist {w : Block} (hw : w ∈ effectiveWhitelist h args) :
    w = Block.whole ∨ ∃ e ∈ whitelistWrites h args, w = e.block := by
  unfold effectiveWhitelist at hw
  split at hw
  · rcases mem_effective hw with hw | hw
    · simp at hw
    · obtain ⟨e, he, rfl⟩ := List.mem_map.mp hw
      exact Or.inr ⟨e, he, rfl⟩
  · exact Or.inl (List.mem_singleton.mp hw)

theorem mem_effectiveBlacklist {d : Block} (hd : d ∈ effectiveBlacklist h args) :
    ∃ e ∈ blacklistWrites h args, d = e.block := by
  rcases mem_effective hd with hd | hd
  · simp at hd
  · obtain ⟨e, he, rfl⟩ := List.mem_map.mp hd
    exact ⟨e, he, rfl⟩

theorem effectiveWhitelist_pairwise :
    (effectiveWhitelist h args).Pairwise fun f e => ¬ f.Overlaps e := by
  unfold effectiveWhitelist
  split
  · exact effective_pairwise .nil
  · exact List.pairwise_singleton _ _

theorem block_len_le {w : Block} (hw : w ∈ effectiveWhitelist h args ∨
    w ∈ effectiveBlacklist h args) : w.len ≤ 256 := by
  rcases hw with hw | hw
  · rcases mem_effectiveWhitelist hw with rfl | ⟨e, he, rfl⟩
    · exact Nat.zero_le _
    · exact (writes_ok he).len_le
  · obtain ⟨e, he, rfl⟩ := mem_effectiveBlacklist hw
    exact (writes_ok he).len_le

/-- `xm_wblist_create` before it excludes 0.0.0.0. -/
def listsTree (h : Host) (args : WblistArgs) : XmIptree :=
  let t :=
    if args.hasWhitelist then
      initSources h (xmIptreeCreate addrDisallowed) args.whitelistFilename args.whitelistEntries
        addrAllowed args.ignoreInvalidHosts
    else xmIptreeCreate addrAllowed
  initSources h t args.blacklistFilename args.blacklistEntries addrDisallowed
    args.ignoreInvalidHosts

theorem wblistTree_eq :
    wblistTree h args = xmIptreeAdd (listsTree h args) 0 256 addrDisallowed := by
  rw [wblistTree, initFromString_eq, entryWrites_any]
  rfl

theorem listsTree_layered :
    (listsTree h args).root.toTrie.Layered addrAllowed addrDisallowed (effectiveWhitelist h args)
      (effectiveBlacklist h args) := by
  have hne : addrAllowed ≠ addrDisallowed := by decide
  unfold listsTree effectiveBlacklist
  rw [initSources_eq, applyWrites_toTrie fun w hw => writes_ok hw]
  refine Trie.Layered.insertAll hne ?_
  unfold effectiveWhitelist
  split
  · rw [initSources_eq, applyWrites_toTrie fun w hw => writes_ok hw]
    exact (Trie.layered_leaf.insertAll hne.symm).flip hne.symm
  · exact Trie.layered_leaf

theorem wblistTree_toTrie :
    (wblistTree h args).root.toTrie =
      Trie.insert addrDisallowed 256 (listsTree h args).root.toTrie (bits 0) := by
  have hw : Write.Ok ⟨0, 256⟩ := ⟨by decide, by decide⟩
  rw [wblistTree_eq]
  exact xmIptreeAdd_toTrie hw _

/-! ## Lookup and numbering -/

theorem agree_bits_zero {n a : Nat} (hn : 32 ≤ n) (ha : a < 2 ^ 32) :
    Agree n (bits 0) (bits a) ↔ a = 0 := by
  constructor
  · intro h
    have := (agree_wordPath (k := 32) (d := 32) (by omega) (by omega) ha).mp (h.mono hn)
    simpa using this.symm
  · rintro rfl
    exact fun _ _ => rfl

theorem not_listsTree_splitAt (p : Path) : ¬ (listsTree h args).root.toTrie.SplitAt p 256 := by
  rw [listsTree_layered.splitAt_iff]
  rintro (⟨w, hw, hb⟩ | ⟨d, hd, hb, _⟩)
  · have := block_len_le (Or.inl hw)
    exact absurd hb.1 (by omega)
  · have := block_len_le (Or.inr hd)
    exact absurd hb.1 (by omega)

theorem wblistTree_lookup {a : Nat} (ha : a < 2 ^ 32) :
    xmIptreeLookupIp (wblistTree h args) a = addrAllowed ↔ Admits h args a := by
  rw [xmIptreeLookupIp_eq, wblistTree_toTrie, Trie.lookup_insert]
  by_cases h0 : a = 0
  · rw [if_pos ⟨(agree_bits_zero (by omega) ha).mpr h0, not_listsTree_splitAt _⟩]
    exact iff_of_false (by decide) fun hc => hc.1 h0
  · rw [if_neg fun hc => h0 ((agree_bits_zero (by omega) ha).mp hc.1), listsTree_layered.lookup_eq]
    exact ⟨fun hc => ⟨h0, hc⟩, fun hc => hc.2⟩

theorem covers_of_below {d : Block} {a : Nat} (hd : ∃ e : Write, d = e.block)
    (hb : d.Below (bits a) 32) : d.Covers (bits a) := by
  obtain ⟨e, rfl⟩ := hd
  intro i _
  by_cases hi : i < 32
  · exact hb.2 i hi
  · simp [Write.block, bits, wordPath, hi]

theorem numbered_iff {a : Nat} :
    Numbered (wblistTree h args).root addrAllowed a ↔ a < 2 ^ 32 ∧ Eligible h args a := by
  refine and_congr_right fun ha => ?_
  have hsplit : (wblistTree h args).root.toTrie.SplitAt (bits a) 32 ↔
      (listsTree h args).root.toTrie.SplitAt (bits a) 32 ∨
        (a = 0 ∧ (listsTree h args).root.toTrie.lookup (bits 0) ≠ addrDisallowed) := by
    rw [wblistTree_toTrie, Trie.splitAt_insert, agree_bits_zero le_rfl ha]
    simp
  rw [Trie.reachesWithin_iff, ← xmIptreeLookupIp_eq, wblistTree_lookup ha, hsplit,
    listsTree_layered.splitAt_iff]
  constructor
  · rintro ⟨⟨h0, ⟨w, hw, hwa⟩, hd⟩, hs⟩
    refine ⟨h0, ⟨w, hw, ?_, hwa⟩, hd⟩
    by_contra hlen
    exact hs (Or.inl (Or.inl ⟨w, hw, by omega, hwa.mono (by omega)⟩))
  · rintro ⟨h0, ⟨w, hw, hlen, hwa⟩, hd⟩
    refine ⟨⟨h0, ⟨w, hw, hwa⟩, hd⟩, ?_⟩
    rintro ((⟨w', hw', hb⟩ | ⟨d, hd', hb, _⟩) | ⟨h0', _⟩)
    · -- a longer effective entry at the address would overlap the one that allows it
      rcases mem_effectiveWhitelist hw' with rfl | ⟨e, _, he⟩
      · exact Block.not_whole_below _ _ hb
      · have := eq_of_covers effectiveWhitelist_pairwise hw hw' hwa (covers_of_below ⟨e, he⟩ hb)
        subst this
        exact absurd hb.1 (by omega)
    · obtain ⟨e, _, he⟩ := mem_effectiveBlacklist hd'
      exact hd ⟨d, hd', covers_of_below ⟨e, he⟩ hb⟩
    · exact h0 h0'

/-! ## The list -/

/-- The list that `xm_wblist_create` builds. -/
def builtList (h : Host) (args : WblistArgs) : XmWblist :=
  { wbIptree := xmIptreePaintValue (wblistTree h args) addrAllowed }

theorem builtList_isAllowed {a : Nat} (ha : a < 2 ^ 32) :
    xmWblistIsAllowed (builtList h args) (ntohl a) = true ↔ Admits h args a := by
  rw [xmWblistIsAllowed, ntohl_ntohl ha, beq_iff_eq, builtList, xmIptreeLookupIp_eq,
    xmIptreePaintValue_toTrie, ← xmIptreeLookupIp_eq, wblistTree_lookup ha]

theorem builtList_count :
    xmWblistCountAllowed (builtList h args) =
      (indexList (wblistTree h args).root addrAllowed).length :=
  xmIptreeCountIps_paint _ _

theorem xmWblistCreate_eq :
    xmWblistCreate h args =
      if xmWblistCountAllowed (builtList h args) = 0 then none else some (builtList h args) := rfl

/-- The list is `NULL` exactly when no address is eligible. -/
theorem xmWblistCreate_eq_none :
    xmWblistCreate h args = none ↔ ∀ a < 2 ^ 32, ¬ Eligible h args a := by
  have hcount : xmWblistCountAllowed (builtList h args) = 0 ↔
      ∀ a < 2 ^ 32, ¬ Eligible h args a := by
    rw [builtList_count, List.length_eq_zero_iff, List.eq_nil_iff_forall_not_mem]
    simp only [mem_indexList, numbered_iff, not_and]
  rw [xmWblistCreate_eq, ← hcount]
  simp

end Xmap.Target
