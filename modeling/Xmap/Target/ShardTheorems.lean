import Xmap.Target.Lemmas.Cover
import Xmap.Target.WblistTheorems

/-!
# Theorems on single shards

A shard returns allowed addresses only, unless none of its elements has a valid index.
-/

namespace Xmap.Target

open Xmap.Lib

/-- No element of the walk, from the first to the last, has a valid index. -/
def ShardParams.Barren (p : ShardParams) (maxIndex : Nat) : Prop :=
  p.first = 0 ∨ ∃ m, p.Closes m ∧ ∀ j < m, ¬ IsValid maxIndex (p.step^[j] p.first)

/-- A shard between two calls: done, or at a valid element. -/
structure Between (maxIndex : Nat) (wblist : XmWblist) (s : XmShard) : Prop where
  wblist_eq : s.wblist = wblist
  maxIndex_eq : s.maxIndex = maxIndex
  current_ok : s.current = 0 ∨ IsValid maxIndex s.current

section
variable {maxIndex fuel : Nat} {wblist : XmWblist} {s : XmShard}

theorem Between.next {r : XmShard × Nat} (hr : Ready maxIndex wblist)
    (hs : Between maxIndex wblist s) (h : xmShardGetNextIp fuel s = some r) :
    Between maxIndex wblist r.1 ∧
      (r.2 = 0 ∨ ∃ y, IsValid maxIndex y ∧ r.2 = elemAddr wblist y) := by
  obtain ⟨rfl, rfl, hc⟩ := hs
  by_cases h0 : s.current = 0
  · rw [xmShardGetNextIp_of_zero h0] at h
    cases h
    exact ⟨⟨rfl, rfl, hc⟩, Or.inl rfl⟩
  · rw [xmShardGetNextIp_of_ne h0] at h
    obtain ⟨m, st, hm, rfl⟩ := getNextIpLoop_sound hr.maxIndex_lt hr.settled h
    by_cases hl : s.params.IsLast (s.params.step^[m] s.current)
    · rw [land_last hl]
      exact ⟨⟨rfl, rfl, Or.inl rfl⟩, Or.inl rfl⟩
    · have hv := hm.hit.resolve_left hl
      rw [land_valid (stop_lt hr.maxIndex_lt hm.hit) hl]
      exact ⟨⟨rfl, rfl, Or.inr hv⟩, Or.inr ⟨_, hv, rfl⟩⟩

theorem Between.nextIps {n : Nat} {ips : List Nat} (hr : Ready maxIndex wblist)
    (hs : Between maxIndex wblist s) (h : nextIps fuel n s = some ips) :
    ∀ ip ∈ ips, ip = 0 ∨ ∃ y, IsValid maxIndex y ∧ ip = elemAddr wblist y := by
  induction n generalizing s ips with
  | zero =>
    cases h
    simp
  | succ n ih =>
    rw [Xmap.Target.nextIps] at h
    cases hn : xmShardGetNextIp fuel s with
    | none => simp [hn] at h
    | some r =>
      obtain ⟨hs', hip⟩ := hs.next hr hn
      simp only [hn, Option.map_eq_some_iff] at h
      obtain ⟨rest, hrest, rfl⟩ := h
      intro ip hmem
      rcases List.mem_cons.mp hmem with rfl | hmem
      · exact hip
      · exact ih hs' hrest ip hmem

/-- A new shard is done after the roll exactly when its walk is barren. -/
theorem between_of_roll {r : XmShard × Nat} (hr : Ready s.maxIndex s.wblist)
    (hc : s.current < 2 ^ 64) (hfirst : s.current = s.params.first)
    (h : shardRollToValid fuel s = some r) :
    Between s.maxIndex s.wblist r.1 ∧ (r.1.current = 0 → s.params.Barren s.maxIndex) := by
  have hM := hr.maxIndex_lt
  rw [shardRollToValid] at h
  by_cases hv : IsValid s.maxIndex s.current
  · rw [if_pos ((currentIndex_lt hM hc).mpr hv)] at h
    cases h
    exact ⟨⟨rfl, rfl, Or.inr hv⟩, fun h0 => absurd h0 (Nat.ne_of_gt hv.1)⟩
  · rw [if_neg (mt (currentIndex_lt hM hc).mp hv)] at h
    by_cases h0 : s.current = 0
    · rw [xmShardGetNextIp_of_zero h0] at h
      cases h
      exact ⟨⟨rfl, rfl, Or.inl h0⟩, fun _ => Or.inl (hfirst ▸ h0)⟩
    · rw [xmShardGetNextIp_of_ne h0] at h
      obtain ⟨m, st, hm, rfl⟩ := getNextIpLoop_sound hM hr.settled h
      by_cases hl : s.params.IsLast (s.params.step^[m] s.current)
      · rw [land_last hl]
        refine ⟨⟨rfl, rfl, Or.inl rfl⟩, fun _ => Or.inr ⟨m, ?_, fun j hj hvj => ?_⟩⟩
        · rw [ShardParams.Closes, ← hfirst]
          exact hm.mono (fun _ => Or.inl) hl
        · rw [← hfirst] at hvj
          cases j with
          | zero => exact hv hvj
          | succ j => exact hm.first (j + 1) (by omega) hj (Or.inr hvj)
      · have hv' := hm.hit.resolve_left hl
        rw [land_valid (stop_lt hM hm.hit) hl]
        exact ⟨⟨rfl, rfl, Or.inr hv'⟩, fun h0' => absurd h0' (Nat.ne_of_gt hv'.1)⟩

theorem roll_of_barren (hr : Ready s.maxIndex s.wblist) (hc : s.current < 2 ^ 64)
    (hfirst : s.current = s.params.first) (hb : s.params.Barren s.maxIndex) :
    ∃ fuel st r, shardRollToValid fuel s = some ({ s with state := st, current := 0 }, r) := by
  have hM := hr.maxIndex_lt
  have hnv : ¬ IsValid s.maxIndex s.current := by
    rcases hb with hb | ⟨m, hm, hb⟩
    · rw [hfirst, hb]
      exact fun hv => Nat.lt_irrefl 0 hv.1
    · rw [hfirst]
      exact hb 0 hm.pos
  simp only [shardRollToValid, if_neg (mt (currentIndex_lt hM hc).mp hnv)]
  by_cases h0 : s.current = 0
  · refine ⟨0, s.state, 0, ?_⟩
    rw [xmShardGetNextIp_of_zero h0, ← h0]
  · obtain ⟨m, hm, hb⟩ := hb.resolve_left (hfirst ▸ h0)
    rw [ShardParams.Closes, ← hfirst] at hm
    have hstop : FirstHit s.params.step (Stop s.params s.maxIndex) s.current m :=
      ⟨hm.pos, Or.inl hm.hit, fun j hj hjm hs =>
        hs.elim (hm.first j hj hjm) (hfirst ▸ hb j hjm)⟩
    obtain ⟨st, hn⟩ := getNextIpLoop_complete hM hr.settled hstop (Nat.lt_succ_self m)
    rw [land_last hm.hit] at hn
    exact ⟨m + 1, st, 0, by rw [xmShardGetNextIp_of_ne h0, hn]; rfl⟩

end

/-! ## Allowed addresses only -/

/-- Every address of the shard, current or next, is allowed unless it is `XM_SHARD_DONE`. -/
def OnlyAllowed (st : ShardState) (shardIdx numShards threadIdx numThreads maxTotalTargets : Nat)
    (cycle : XmCycle) (wblist : XmWblist) : Prop :=
  ∀ fuel s, xmShardCreate fuel st shardIdx numShards threadIdx numThreads maxTotalTargets
      (xmWblistCountAllowed wblist) cycle wblist = some s →
    ∀ fuel n ips, curAndNextIps fuel n s = some ips →
      ∀ ip ∈ ips, ip = xmShardDone ∨ xmWblistIsAllowed wblist ip = true

section
variable {h : Host} {args : WblistArgs} {wblist : XmWblist}

/-- A barren shard returns its stray address. -/
theorem OnlyAllowed.stray_allowed {st : ShardState}
    {shardIdx numShards threadIdx numThreads maxTotalTargets : Nat} {cycle : XmCycle}
    (hall : OnlyAllowed st shardIdx numShards threadIdx numThreads maxTotalTargets cycle wblist)
    (hw : xmWblistCreate h args = some wblist)
    (hb : (shardParams cycle (numShards * numThreads)
      (subIdx shardIdx threadIdx numThreads)).Barren (xmWblistCountAllowed wblist)) :
    xmWblistIsAllowed wblist (stray wblist) = true := by
  obtain ⟨rfl, hne⟩ := xmWblistCreate_eq_some.mp hw
  have hr := builtList_ready hne
  rw [OnlyAllowed, builtList_count_eq] at hall
  rw [builtList_count_eq] at hb
  obtain ⟨fuel, st', r, hroll⟩ := roll_of_barren (s := newShard st (numShards * numThreads)
    (subIdx shardIdx threadIdx numThreads) maxTotalTargets (numbering h args).length cycle
    (builtList h args)) (by rw [newShard_maxIndex, newShard_wblist]; exact hr)
    (newShard_current_lt ..) rfl (by rwa [newShard_params, newShard_maxIndex])
  have hip := hall fuel _ (Option.map_eq_some_iff.mpr ⟨_, hroll, rfl⟩)
  generalize hs : newShard st _ _ _ _ _ _ = s₀ at hip
  have hwb : s₀.wblist = builtList h args := by rw [← hs, newShard_wblist]
  have hcur : curAndNextIps 0 0 { s₀ with state := st', current := 0 } =
      some [stray (builtList h args)] := by
    rw [curAndNextIps, xmShardGetCurIp,
      lookupIndex_eq (s := { s₀ with state := st', current := 0 }) (by rw [hwb]; exact hr.settled)]
    simp [currentIndex, nextIps, stray, hwb]
  exact (hip 0 0 _ hcur _ List.mem_cons_self).resolve_left hr.stray_ne

/-- Every address of a shard is allowed exactly when its walk has a valid index, or the address before
the first index happens to be allowed. -/
theorem xmShard_only_allowed_iff (hw : xmWblistCreate h args = some wblist) (st : ShardState)
    (shardIdx numShards threadIdx numThreads maxTotalTargets : Nat) (cycle : XmCycle) :
    OnlyAllowed st shardIdx numShards threadIdx numThreads maxTotalTargets cycle wblist ↔
      ((shardParams cycle (numShards * numThreads)
          (subIdx shardIdx threadIdx numThreads)).Barren (xmWblistCountAllowed wblist) →
        xmWblistIsAllowed wblist (stray wblist) = true) := by
  refine ⟨fun hall => hall.stray_allowed hw, fun hstray fuel s hcreate fuel' n ips hips ip hip => ?_⟩
  obtain ⟨rfl, hne⟩ := xmWblistCreate_eq_some.mp hw
  have hr := builtList_ready hne
  rw [builtList_count_eq] at hstray hcreate
  obtain ⟨r, hroll, rfl⟩ := Option.map_eq_some_iff.mp hcreate
  obtain ⟨hbet, hbar⟩ := between_of_roll
    (by rw [newShard_maxIndex, newShard_wblist]; exact hr) (newShard_current_lt ..) rfl hroll
  rw [newShard_maxIndex, newShard_wblist] at hbet
  rw [newShard_params, newShard_maxIndex] at hbar
  obtain ⟨rest, hrest, rfl⟩ := Option.map_eq_some_iff.mp hips
  have hcur : xmShardGetCurIp r.1 = (r.1, addrAt (builtList h args) (currentIndex r.1)) := by
    rw [xmShardGetCurIp, lookupIndex_eq (by rw [hbet.wblist_eq]; exact hr.settled),
      hbet.wblist_eq]
  rw [hcur] at hrest hip
  rcases List.mem_cons.mp hip with rfl | hip
  · right
    rcases hbet.current_ok with h0 | hv
    · rw [currentIndex, h0]
      exact hstray (hbar h0)
    · rw [currentIndex_of_valid (by rw [hbet.maxIndex_eq]; exact hr.maxIndex_lt)
        (by rw [hbet.maxIndex_eq]; exact hv)]
      exact isAllowed_elemAddr hv
  · rcases hbet.nextIps hr hrest ip hip with h0 | ⟨y, hy, rfl⟩
    · exact Or.inl h0
    · exact Or.inr (isAllowed_elemAddr hy)

end

/-! ## A list of one address -/

def hostEntry : CidrArray := ⟨["1.2.3.4/32".toList], by decide⟩
def noEntry : CidrArray := ⟨[], by decide⟩

abbrev hostArgs : WblistArgs := arrayArgs hostEntry noEntry

theorem hostArgs_effectiveWhitelist :
    effectiveWhitelist quadHost hostArgs = [⟨bits 0x01020304, 32⟩] := by
  have hw : whitelistWrites quadHost hostArgs = [⟨0x01020304, 32⟩] := by decide
  rw [effectiveWhitelist, if_pos (by decide), hw]
  simp [effective, Write.block]

theorem hostArgs_admits {a : Nat} (ha : a < 2 ^ 32) :
    Admits quadHost hostArgs a → a = 0x01020304 := by
  rintro ⟨_, ⟨w, hw, hc⟩, _⟩
  rw [hostArgs_effectiveWhitelist, List.mem_singleton] at hw
  subst hw
  have := (agree_wordPath (k := 32) (d := 32) (by omega) (by decide) ha).mp hc
  simpa using this.symm

theorem hostArgs_numbering : numbering quadHost hostArgs = [0x01020304] := by
  have hmem : ∀ a, a ∈ numbering quadHost hostArgs ↔ a = 0x01020304 := by
    intro a
    rw [mem_numbering]
    constructor
    · rintro ⟨ha, hel⟩
      exact hostArgs_admits ha hel.admits
    · rintro rfl
      exact ⟨by decide, by decide⟩
  exact List.perm_singleton.mp ((List.perm_ext_iff_of_nodup numbering_nodup
    (List.nodup_singleton _)).mpr fun a => by rw [hmem, List.mem_singleton])

theorem hostArgs_create :
    xmWblistCreate quadHost hostArgs = some (builtList quadHost hostArgs) :=
  xmWblistCreate_eq_some.mpr ⟨rfl, by rw [hostArgs_numbering]; simp⟩

theorem hostArgs_count : xmWblistCountAllowed (builtList quadHost hostArgs) = 1 := by
  rw [builtList_count_eq, hostArgs_numbering]
  rfl

/-- The stray address of the list is not its only address. -/
theorem hostArgs_stray :
    ¬ xmWblistIsAllowed (builtList quadHost hostArgs)
      (stray (builtList quadHost hostArgs)) = true := by
  obtain ⟨x, hx, hlt, he⟩ := stray_upper (h := quadHost) (by rw [hostArgs_numbering]; simp)
  rw [he, builtList_isAllowed hlt]
  intro hadm
  have := hostArgs_admits hlt hadm
  omega

/-- The least cycle that `xm_make_cycle` can draw: the generator is `3 ^ 3`. -/
def leastCycle : XmCycle where
  group := ⟨{ prime := 257, knownPrimroot := 3, primeFactors := [2] }, by decide⟩
  generator := 27
  order := 256
  offset := 0
  generator_lt := by decide
  order_eq := rfl
  offset_lt := by decide

def zeroState : ShardState := ⟨0, 0, 0, 0, 0, 0, 0⟩

theorem xmShard_only_allowed_iff_first :
    OnlyAllowed zeroState 0 256 0 1 0 leastCycle (builtList quadHost hostArgs) ↔
      ((shardParams leastCycle (256 * 1) (subIdx 0 0 1)).Barren
          (xmWblistCountAllowed (builtList quadHost hostArgs)) →
        xmWblistIsAllowed (builtList quadHost hostArgs)
          (stray (builtList quadHost hostArgs)) = true) :=
  xmShard_only_allowed_iff hostArgs_create zeroState 0 256 0 1 0 leastCycle

/-- The second of 256 shards has no index and returns an address that the list excludes. -/
theorem xmShard_barren_shard :
    ¬ OnlyAllowed zeroState 1 256 0 1 0 leastCycle (builtList quadHost hostArgs) := by
  intro hall
  refine hostArgs_stray (hall.stray_allowed hostArgs_create ?_)
  rw [hostArgs_count]
  refine Or.inr ⟨1, FirstHit.one (by decide), fun j hj => ?_⟩
  obtain rfl : j = 0 := by omega
  decide

end Xmap.Target
