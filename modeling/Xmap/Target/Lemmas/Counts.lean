import Xmap.Target.Lemmas.Allowed

/-!
# Counts and membership

A count leaves out the addresses at which the tree is split, so it is right for every value exactly
when there are none.
-/

namespace Xmap.Target

open Xmap.Lib

/-- A call of `init_from_string`. -/
structure InitCall where
  ip : CStr
  value : Nat

/-- Makes the calls in order. -/
def runCalls (h : Host) (t : XmIptree) (calls : List InitCall) : XmIptree :=
  calls.foldl (fun t c => (initFromString h t c.ip c.value).1) t

/-- The prefixes that the calls add, with their values. -/
def callWrites (h : Host) (calls : List InitCall) : List (Write × Nat) :=
  calls.flatMap fun c => (entryWrites h c.ip).map (·, c.value)

/-- Every prefix longer than an address is added where the address already has its value. -/
def NoDeepSplit : XmIptree → List (Write × Nat) → Prop
  | _, [] => True
  | t, (w, value) :: ws =>
      (32 < w.len → xmIptreeLookupIp t w.pfx = value) ∧
        NoDeepSplit (xmIptreeAdd t w.pfx w.len value) ws

/-- No node at the depth of an address is split. -/
def Shallow (t : XmIptree) : Prop := ∀ a < 2 ^ 32, ¬ t.root.toTrie.SplitAt (bits a) 32

/-- The number of addresses that have the value. -/
def members (t : XmIptree) (v : Nat) : Finset Nat :=
  (Finset.range (2 ^ 32)).filter fun a => xmIptreeLookupIp t a = v

/-- Every value's count, before and after painting for it, is the number of its addresses. -/
def CountsAgree (t : XmIptree) : Prop :=
  ∀ v, xmIptreeCountIps t v = (members t v).card ∧
    xmIptreeCountIps (xmIptreePaintValue t v) v = (members t v).card

theorem mem_members {t : XmIptree} {v a : Nat} :
    a ∈ members t v ↔ a < 2 ^ 32 ∧ xmIptreeLookupIp t a = v := by simp [members]

theorem runCalls_eq (h : Host) (t : XmIptree) (calls : List InitCall) :
    runCalls h t calls =
      (callWrites h calls).foldl (fun t w => xmIptreeAdd t w.1.pfx w.1.len w.2) t := by
  induction calls generalizing t with
  | nil => rfl
  | cons c calls ih =>
    have hc : (initFromString h t c.ip c.value).1 =
        ((entryWrites h c.ip).map (·, c.value)).foldl
          (fun t w => xmIptreeAdd t w.1.pfx w.1.len w.2) t := by
      rw [initFromString_eq, List.foldl_map]
      rfl
    simp only [runCalls, List.foldl_cons, hc] at ih ⊢
    rw [ih, callWrites, callWrites, List.flatMap_cons, List.foldl_append]

theorem callWrites_ok {h : Host} {calls : List InitCall} {w : Write × Nat}
    (hw : w ∈ callWrites h calls) : w.1.Ok := by
  obtain ⟨c, _, hw⟩ := List.mem_flatMap.mp hw
  obtain ⟨w', hw', rfl⟩ := List.mem_map.mp hw
  exact entryWrites_ok hw'

/-- An addition keeps the tree shallow unless it splits an address. -/
theorem shallow_add {t : XmIptree} {w : Write} (hw : w.Ok) (value : Nat) :
    Shallow (xmIptreeAdd t w.pfx w.len value) ↔
      Shallow t ∧ (32 < w.len → xmIptreeLookupIp t w.pfx = value) := by
  simp only [Shallow, xmIptreeAdd_toTrie hw, Trie.splitAt_insert, not_or, xmIptreeLookupIp_eq]
  constructor
  · intro h
    refine ⟨fun a ha => (h a ha).1, fun hlen => ?_⟩
    by_contra hne
    exact (h w.pfx hw.pfx_lt).2 ⟨hlen, fun _ _ => rfl, hne⟩
  · rintro ⟨h, hlen⟩ a ha
    exact ⟨h a ha, fun hs => hs.2.2 (hlen hs.1)⟩

theorem shallow_foldl {t : XmIptree} {ws : List (Write × Nat)} (hws : ∀ w ∈ ws, w.1.Ok) :
    Shallow (ws.foldl (fun t w => xmIptreeAdd t w.1.pfx w.1.len w.2) t) ↔
      Shallow t ∧ NoDeepSplit t ws := by
  induction ws generalizing t with
  | nil => simp [NoDeepSplit]
  | cons w ws ih =>
    rw [List.foldl_cons, ih (fun w' hw' => hws w' (List.mem_cons_of_mem _ hw')),
      shallow_add (hws w List.mem_cons_self), NoDeepSplit, and_assoc]

/-- The numbered addresses are members, and all of them when the count is right. -/
theorem length_indexList_eq_card (t : XmIptree) (v : Nat) :
    (indexList t.root v).length = (members t v).card ↔
      ∀ a < 2 ^ 32, xmIptreeLookupIp t a = v → ¬ t.root.toTrie.SplitAt (bits a) 32 := by
  have hmem : ∀ a, a ∈ (indexList t.root v).toFinset ↔
      a ∈ members t v ∧ ¬ t.root.toTrie.SplitAt (bits a) 32 := by
    intro a
    rw [List.mem_toFinset, mem_indexList, Numbered, Trie.reachesWithin_iff, mem_members,
      xmIptreeLookupIp_eq, and_assoc]
  have hsub : (indexList t.root v).toFinset ⊆ members t v := fun a ha => ((hmem a).mp ha).1
  rw [← List.toFinset_card_of_nodup (indexList_nodup t.root v)]
  constructor
  · intro hcard a ha hv
    have heq := Finset.eq_of_subset_of_card_le hsub hcard.ge
    have hin : a ∈ members t v := mem_members.mpr ⟨ha, hv⟩
    rw [← heq] at hin
    exact ((hmem a).mp hin).2
  · intro h
    refine congrArg Finset.card (hsub.antisymm fun a ha => (hmem a).mpr ⟨ha, ?_⟩)
    obtain ⟨hlt, hv⟩ := mem_members.mp ha
    exact h a hlt hv

theorem counts_iff_shallow {t : XmIptree} (hp : t.painted = false) :
    CountsAgree t ↔ Shallow t := by
  have hv : ∀ v, (xmIptreeCountIps t v = (members t v).card ∧
      xmIptreeCountIps (xmIptreePaintValue t v) v = (members t v).card) ↔
      ∀ a < 2 ^ 32, xmIptreeLookupIp t a = v → ¬ t.root.toTrie.SplitAt (bits a) 32 := by
    intro v
    rw [xmIptreeCountIps_plain hp, xmIptreeCountIps_paint, and_self, length_indexList_eq_card]
  simp only [CountsAgree, hv]
  exact ⟨fun h a ha => h _ a ha rfl, fun h v a ha _ => h a ha⟩

theorem runCalls_painted {h : Host} {calls : List InitCall} {t : XmIptree}
    (hp : t.painted = false) : (runCalls h t calls).painted = false := by
  rw [runCalls_eq]
  generalize callWrites h calls = ws
  induction ws generalizing t with
  | nil => exact hp
  | cons w ws ih => exact ih rfl

/-- The tree after the calls is shallow exactly when none of their entries splits an address. -/
theorem shallow_runCalls (h : Host) (v₀ : Nat) (calls : List InitCall) :
    Shallow (runCalls h (xmIptreeCreate v₀) calls) ↔
      NoDeepSplit (xmIptreeCreate v₀) (callWrites h calls) := by
  have hnew : Shallow (xmIptreeCreate v₀) := by simp [Shallow, xmIptreeCreate]
  rw [runCalls_eq, shallow_foldl fun w hw => callWrites_ok hw]
  exact ⟨fun hc => hc.2, fun hc => ⟨hnew, hc⟩⟩

/-- The count of a list is the number of addresses that it allows, unless one of them is allowed only
by an entry longer than an address. -/
theorem builtList_count_iff (h : Host) (args : WblistArgs) :
    xmWblistCountAllowed (builtList h args) =
        ((Finset.range (2 ^ 32)).filter fun a =>
          xmWblistIsAllowed (builtList h args) (ntohl a)).card ↔
      ∀ a < 2 ^ 32, Admits h args a → Eligible h args a := by
  have hset : (Finset.range (2 ^ 32)).filter
      (fun a => xmWblistIsAllowed (builtList h args) (ntohl a) = true) =
      members (wblistTree h args) addrAllowed := by
    refine Finset.filter_congr fun a ha => ?_
    have ha := Finset.mem_range.mp ha
    rw [builtList_isAllowed ha, wblistTree_lookup ha]
  rw [hset, builtList_count, length_indexList_eq_card]
  refine forall₂_congr fun a ha => ?_
  have hnum := @numbered_iff h args a
  rw [Numbered, Trie.reachesWithin_iff, ← xmIptreeLookupIp_eq, wblistTree_lookup ha] at hnum
  constructor
  · intro hs hadm
    exact (hnum.mp ⟨ha, hadm, hs ((wblistTree_lookup ha).mpr hadm)⟩).2
  · intro hel hv
    exact (hnum.mpr ⟨ha, hel ((wblistTree_lookup ha).mp hv)⟩).2.2

end Xmap.Target
