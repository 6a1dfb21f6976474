import Xmap.Target.Lemmas.Senders

/-!
# Calls of a shard

The calls of `xm_shard_get_next_ip` one after another, for every bound on the index and whatever the list
is: where each call stops depends on the elements of the walk only.
-/

namespace Xmap.Target

open Xmap.Lib

/-- The shard after the next `n` calls. -/
def nextShards (fuel : Nat) : Nat → XmShard → Option XmShard
  | 0, s => some s
  | n + 1, s =>
      match xmShardGetNextIp fuel s with
      | none => none
      | some (s, _) => nextShards fuel n s

/-- A candidate whose index, as a `uint32_t`, is below `maxIndex`. -/
def IsPicked (maxIndex y : Nat) : Prop := y < 2 ^ 32 ∧ (y + 2 ^ 32 - 1) % 2 ^ 32 < maxIndex

instance (maxIndex : Nat) : DecidablePred (IsPicked maxIndex) :=
  fun _ => inferInstanceAs (Decidable (_ ∧ _))

/-- Where a call stops. -/
def CallStops (p : ShardParams) (maxIndex y : Nat) : Prop := p.IsLast y ∨ IsPicked maxIndex y

/-- The shard after a call that stops at `y`. -/
structure LandsAt (s : XmShard) (y : Nat) (s' : XmShard) : Prop where
  params_eq : s'.params = s.params
  maxIndex_eq : s'.maxIndex = s.maxIndex
  current_eq : s'.current = if s.params.IsLast y then xmShardDone else y

section
variable {fuel : Nat} {s : XmShard}

theorem callStops_lt {p : ShardParams} {maxIndex y : Nat} (h : CallStops p maxIndex y) : y < 2 ^ 32 :=
  h.elim (·.1) (·.1)

theorem getNextIpLoop_stops {r : XmShard × Nat} (h : getNextIpLoop fuel s = some r) :
    ∃ m, FirstHit s.params.step (CallStops s.params s.maxIndex) s.current m ∧
      LandsAt s (s.params.step^[m] s.current) r.1 := by
  induction fuel generalizing s with
  | zero => simp [getNextIpLoop] at h
  | succ fuel ih =>
    rw [getNextIpLoop] at h
    cases hn : shardGetNextElem fuel s with
    | none => simp [hn] at h
    | some q =>
      obtain ⟨k, hk, rfl⟩ := shardGetNextElem_sound hn
      have hlt : s.params.step^[k] s.current < 2 ^ 32 := hk.hit
      simp only [hn] at h
      split at h
      · next hl =>
        cases h
        exact ⟨k, hk.mono (fun _ => callStops_lt) (Or.inl ⟨hlt, hl⟩), rfl, rfl, (if_pos ⟨hlt, hl⟩).symm⟩
      · next hl =>
        split at h
        · next hp =>
          cases h
          exact ⟨k, hk.mono (fun _ => callStops_lt) (Or.inr ⟨hlt, hp⟩), rfl, rfl,
            (if_neg fun hlast => hl hlast.2).symm⟩
        · next hp =>
          obtain ⟨m, hm, hland⟩ := ih (s := XmShard.countBlacklisted { s with current := _ }) h
          refine ⟨k + m, hk.trans (fun _ => callStops_lt) hm ?_, ?_⟩
          · rintro (hstop | hstop)
            · exact hl hstop.2
            · exact hp hstop.2
          · rw [Nat.add_comm, Function.iterate_add_apply]
            exact ⟨hland.params_eq, hland.maxIndex_eq, hland.current_eq⟩

theorem getNextIpLoop_reaches {m : Nat}
    (h : FirstHit s.params.step (CallStops s.params s.maxIndex) s.current m) (hf : m < fuel) :
    ∃ r, getNextIpLoop fuel s = some r ∧ LandsAt s (s.params.step^[m] s.current) r.1 := by
  induction fuel generalizing s m with
  | zero => omega
  | succ fuel ih =>
    obtain ⟨k, hk⟩ := FirstHit.of_exists (f := s.params.step) (P := (· < 2 ^ 32))
      ⟨m, h.pos, callStops_lt h.hit⟩
    have hkm : k ≤ m := hk.le h.pos (callStops_lt h.hit)
    have hlt : s.params.step^[k] s.current < 2 ^ 32 := hk.hit
    rw [getNextIpLoop, shardGetNextElem_complete hk (by omega)]
    dsimp only
    by_cases hl : s.params.step^[k] s.current = s.params.last
    · obtain rfl := (hk.mono (fun _ => callStops_lt) (Or.inl ⟨hlt, hl⟩)).unique h
      rw [if_pos hl]
      exact ⟨_, rfl, rfl, rfl, (if_pos ⟨hlt, hl⟩).symm⟩
    · rw [if_neg hl]
      by_cases hp : (s.params.step^[k] s.current + 2 ^ 32 - 1) % 2 ^ 32 < s.maxIndex
      · obtain rfl := (hk.mono (fun _ => callStops_lt) (Or.inr ⟨hlt, hp⟩)).unique h
        rw [if_pos hp]
        exact ⟨_, rfl, rfl, rfl, (if_neg fun hlast => hl hlast.2).symm⟩
      · have hne : k ≠ m := by
          rintro rfl
          exact h.hit.elim (fun hstop => hl hstop.2) (fun hstop => hp hstop.2)
        obtain ⟨n, rfl⟩ : ∃ n, m = k + n := ⟨m - k, by omega⟩
        rw [if_neg hp, Nat.add_comm k n, Function.iterate_add_apply]
        obtain ⟨r, hr, hland⟩ := ih (s := XmShard.countBlacklisted { s with current := _ })
          (h.drop (by omega)) (by have := hk.pos; omega)
        exact ⟨r, hr, hland.params_eq, hland.maxIndex_eq, hland.current_eq⟩

/-! ## Runs of calls -/

/-- From a nonzero element the walk never meets zero. -/
def ShardParams.NoZero (p : ShardParams) : Prop := ∀ y, 0 < y → y < p.modulus → 0 < p.step y

theorem ShardParams.step_lt {p : ShardParams} (hm : 0 < p.modulus) (x : Nat) : p.step x < p.modulus :=
  Nat.mod_lt _ hm

theorem ShardParams.NoZero.iterate {p : ShardParams} (hz : p.NoZero) {x m : Nat} (h0 : 0 < x)
    (hx : x < p.modulus) : 0 < p.step^[m] x ∧ p.step^[m] x < p.modulus := by
  induction m with
  | zero => exact ⟨h0, hx⟩
  | succ m ih =>
    rw [Function.iterate_succ_apply']
    exact ⟨hz _ ih.1 ih.2, ShardParams.step_lt (by omega) _⟩

theorem nextShards_of_done (h : s.current = 0) (n : Nat) : nextShards fuel n s = some s := by
  induction n with
  | zero => rfl
  | succ n ih =>
    rw [nextShards, xmShardGetNextIp_of_zero h]
    exact ih

theorem nextShards_succ (h : s.current ≠ 0) (n : Nat) :
    nextShards fuel (n + 1) s =
      match getNextIpLoop fuel s with
      | none => none
      | some (s, _) => nextShards fuel n s := by
  rw [nextShards, xmShardGetNextIp_of_ne h]

/-- The picked elements of a shard up to its last one. -/
abbrev XmShard.Picks (s : XmShard) (l : List Nat) : Prop :=
  Scans s.params.step s.params.IsLast (IsPicked s.maxIndex) s.current l

/-- A shard that is done after some calls has picked fewer elements. -/
theorem nextShards_sound {n : Nat} {s' : XmShard} (hz : s.params.NoZero) (h0 : 0 < s.current)
    (hlt : s.current < s.params.modulus) (h : nextShards fuel n s = some s')
    (hdone : s'.current = xmShardDone) : ∃ l, s.Picks l ∧ l.length < n := by
  induction n generalizing s with
  | zero =>
    cases h
    rw [hdone, xmShardDone] at h0
    omega
  | succ n ih =>
    rw [nextShards_succ (by omega)] at h
    cases hn : getNextIpLoop fuel s with
    | none => simp [hn] at h
    | some r =>
      simp only [hn] at h
      obtain ⟨m, hm, hland⟩ := getNextIpLoop_stops hn
      by_cases hl : s.params.IsLast (s.params.step^[m] s.current)
      · exact ⟨[], .done hm hl, Nat.succ_pos n⟩
      · obtain ⟨hpos, hmod⟩ := hz.iterate (m := m) h0 hlt
        have hcur : r.1.current = s.params.step^[m] s.current := by rw [hland.current_eq, if_neg hl]
        obtain ⟨l, hs, hlen⟩ := ih (s := r.1) (by rw [hland.params_eq]; exact hz)
          (by rw [hcur]; exact hpos) (by rw [hcur, hland.params_eq]; exact hmod) h
        rw [XmShard.Picks, hland.params_eq, hland.maxIndex_eq, hcur] at hs
        exact ⟨_, .next hm hl hs, Nat.succ_lt_succ hlen⟩

/-- A shard that picks `l` is done after one more call. -/
theorem nextShards_complete {p : ShardParams} {maxIndex x : Nat} {l : List Nat} (hz : p.NoZero)
    (h : Scans p.step p.IsLast (IsPicked maxIndex) x l) (h0 : 0 < x) (hlt : x < p.modulus) :
    ∃ N, ∀ fuel ≥ N, ∀ n > l.length, ∀ s : XmShard, s.params = p → s.maxIndex = maxIndex →
      s.current = x → ∃ s', nextShards fuel n s = some s' ∧ s'.current = xmShardDone := by
  induction h with
  | @done x m hm hl =>
    refine ⟨m + 1, fun fuel hf n hn s hp hi hx => ?_⟩
    subst hp hi hx
    obtain ⟨n, rfl⟩ : ∃ k, n = k + 1 := ⟨n - 1, by omega⟩
    obtain ⟨r, hr, hland⟩ := getNextIpLoop_reaches hm (show m < fuel by omega)
    have hcur : r.1.current = 0 := by rw [hland.current_eq, if_pos hl, xmShardDone]
    rw [nextShards_succ (by omega), hr]
    exact ⟨r.1, nextShards_of_done hcur n, hcur⟩
  | @next x m l hm hl _ ih =>
    obtain ⟨hpos, hmod⟩ := hz.iterate (m := m) h0 hlt
    obtain ⟨N, hN⟩ := ih hpos hmod
    refine ⟨m + 1 + N, fun fuel hf n hn s hp hi hx => ?_⟩
    subst hp hi hx
    obtain ⟨n, rfl⟩ : ∃ k, n = k + 1 := ⟨n - 1, by omega⟩
    obtain ⟨r, hr, hland⟩ := getNextIpLoop_reaches hm (show m < fuel by omega)
    have hcur : r.1.current = s.params.step^[m] s.current := by rw [hland.current_eq, if_neg hl]
    rw [nextShards_succ (by omega), hr]
    exact hN fuel (by omega) n (by simpa using hn) r.1 hland.params_eq hland.maxIndex_eq hcur

theorem xmShardCreate_params {st : ShardState} {shardIdx numShards threadIdx numThreads maxTotal
    maxIndex : Nat} {c : XmCycle} {wblist : XmWblist}
    (h : xmShardCreate fuel st shardIdx numShards threadIdx numThreads maxTotal maxIndex c wblist = some s) :
    s.params = shardParams c (numShards * numThreads) (subIdx shardIdx threadIdx numThreads) := by
  obtain ⟨r, hr, rfl⟩ := Option.map_eq_some_iff.mp h
  unfold shardRollToValid xmShardGetNextIp at hr
  split_ifs at hr
  · cases hr
    rfl
  · cases hr
    rfl
  · obtain ⟨_, _, hland⟩ := getNextIpLoop_stops hr
    exact hland.params_eq

/-! ## The addresses of the calls -/

theorem nextIps_of_done (h : s.current = 0) (n : Nat) :
    nextIps fuel n s = some ((List.range n).map fun j => ([] : List Nat).getD j xmShardDone) := by
  induction n with
  | zero => rfl
  | succ n ih =>
    rw [nextIps, xmShardGetNextIp_of_zero h, List.range_succ_eq_map, List.map_cons, List.map_map]
    simp only [ih, Option.map_some]
    rfl

theorem nextIps_succ {s' : XmShard} {ip : Nat} (h : s.current ≠ 0)
    (hn : getNextIpLoop fuel s = some (s', ip)) (n : Nat) :
    nextIps fuel (n + 1) s = (nextIps fuel n s').map (ip :: ·) := by
  simp only [nextIps, xmShardGetNextIp_of_ne h, hn]

theorem range_map_getD_cons {l : List Nat} {ip : Nat} (n : Nat) :
    ((List.range (n + 1)).map fun j => (ip :: l).getD j xmShardDone) =
      ip :: (List.range n).map fun j => l.getD j xmShardDone := by
  rw [List.range_succ_eq_map, List.map_cons, List.map_map]
  rfl

/-- The calls return the addresses that a scan stops at, and `XM_SHARD_DONE` ever after. -/
theorem nextIps_of_scan {x : Nat} {l : List Nat} (hr : Ready s.maxIndex s.wblist) (h : s.Scan x l)
    (hx : x ≠ 0) :
    ∃ N, ∀ fuel ≥ N, ∀ st n, nextIps fuel n { s with state := st, current := x } =
      some ((List.range n).map fun j => (l.map (elemAddr s.wblist)).getD j xmShardDone) := by
  induction h with
  | @done x m hm hl =>
    refine ⟨m + 1, fun fuel hf st n => ?_⟩
    cases n with
    | zero => rfl
    | succ n =>
      obtain ⟨st', hn⟩ := getNextIpLoop_complete (s := { s with state := st, current := x })
        hr.maxIndex_lt hr.settled hm (show m < fuel by omega)
      rw [land_last (s := { s with state := st, current := x }) hl] at hn
      rw [nextIps_succ hx hn, nextIps_of_done (s := { s with state := st', current := xmShardDone }) rfl,
        List.range_succ_eq_map, List.map_cons, List.map_map]
      rfl
  | @next x m l hm hl _ ih =>
    have hv : IsValid s.maxIndex (s.params.step^[m] x) := hm.hit.resolve_left hl
    obtain ⟨N, hN⟩ := ih (Nat.ne_of_gt hv.1)
    refine ⟨m + 1 + N, fun fuel hf st n => ?_⟩
    cases n with
    | zero => rfl
    | succ n =>
      obtain ⟨st', hn⟩ := getNextIpLoop_complete (s := { s with state := st, current := x })
        hr.maxIndex_lt hr.settled hm (show m < fuel by omega)
      rw [land_valid (s := { s with state := st, current := x }) (stop_lt hr.maxIndex_lt hm.hit) hl] at hn
      rw [nextIps_succ hx hn, hN fuel (by omega) st' n, Option.map_some, List.map_cons, range_map_getD_cons]

/-- A shard whose scan from its first element on meets a valid element returns all addresses of its walk. -/
theorem curAndNextIps_of_visits {m : Nat} (hr : Ready s.maxIndex s.wblist) (h0 : s.current ≠ 0)
    (hc : s.current < 2 ^ 64) (hfirst : s.current = s.params.first) (hm : s.params.Closes m)
    (hne : s.params.visits s.maxIndex m ≠ []) :
    ∃ fuel r, shardRollToValid fuel s = some r ∧ ∃ fuel, ∀ n, curAndNextIps fuel n r.1 =
      some ((List.range (n + 1)).map fun j =>
        ((s.params.visits s.maxIndex m).map (elemAddr s.wblist)).getD j xmShardDone) := by
  obtain ⟨m, rfl⟩ : ∃ k, m = k + 1 := ⟨m - 1, by have := hm.pos; omega⟩
  have hscan : Scans s.params.step s.params.IsLast (IsValid s.maxIndex) s.params.first _ := hm.scans
  rw [ShardParams.visits, walk_succ, List.filter_cons] at hne ⊢
  rw [← hfirst] at hscan hne ⊢
  have hrun : ∀ y st l, IsValid s.maxIndex y → s.Scan y l → ∃ fuel, ∀ n,
      curAndNextIps fuel n { s with state := st, current := y } =
        some ((List.range (n + 1)).map fun j => ((y :: l).map (elemAddr s.wblist)).getD j xmShardDone) := by
    intro y st l hv hs
    obtain ⟨N, hN⟩ := nextIps_of_scan hr hs (Nat.ne_of_gt hv.1)
    refine ⟨N, fun n => ?_⟩
    rw [curAndNextIps, xmShardGetCurIp_valid (s := { s with state := st, current := y }) hr hv]
    dsimp only
    rw [hN N le_rfl st n, Option.map_some, List.map_cons, range_map_getD_cons]
  by_cases hv : IsValid s.maxIndex s.current
  · rw [if_pos (decide_eq_true hv)]
    refine ⟨0, (s, s.current % 2 ^ 32), if_pos ((currentIndex_lt hr.maxIndex_lt hc).mpr hv), ?_⟩
    exact hrun s.current s.state _ hv hscan
  · rw [if_neg (by simpa using hv)] at hne ⊢
    have hroll : ∀ fuel, shardRollToValid fuel s = getNextIpLoop fuel s := by
      intro fuel
      rw [shardRollToValid, if_neg (mt (currentIndex_lt hr.maxIndex_lt hc).mp hv),
        xmShardGetNextIp_of_ne h0]
    revert hne
    generalize (walk s.params.step (s.params.step s.current) m).filter (IsValid s.maxIndex) = l at hscan
    intro hne
    cases hscan with
    | done => exact absurd rfl hne
    | next hk hl hs =>
      have hv' : IsValid s.maxIndex _ := hk.hit.resolve_left hl
      obtain ⟨st, hn⟩ := getNextIpLoop_complete hr.maxIndex_lt hr.settled hk (Nat.lt_succ_self _)
      rw [land_valid (stop_lt hr.maxIndex_lt hk.hit) hl] at hn
      exact ⟨_, _, (hroll _).trans hn, hrun _ st _ hv' hs⟩

end

end Xmap.Target
