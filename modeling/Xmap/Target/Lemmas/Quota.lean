import Xmap.Target.Scan

/-!
# The quota of a shard

The calls on a shard change neither its quota nor the count of the hosts that probes were sent to.
-/

namespace Xmap.Target

/-- The shards have the same quota and the same count of hosts. -/
def XmShard.SameQuota (s t : XmShard) : Prop :=
  t.state.maxTargets = s.state.maxTargets ∧ t.state.sent = s.state.sent

section
variable {s t u : XmShard}

theorem XmShard.SameQuota.refl (s : XmShard) : s.SameQuota s := ⟨rfl, rfl⟩

theorem XmShard.SameQuota.trans (h : s.SameQuota t) (h' : t.SameQuota u) : s.SameQuota u :=
  ⟨h'.1.trans h.1, h'.2.trans h.2⟩

@[simp] theorem lookupIndex_state (s : XmShard) (index : Nat) :
    (s.lookupIndex index).1.state = s.state := rfl

@[simp] theorem xmShardGetCurIp_state (s : XmShard) : (xmShardGetCurIp s).1.state = s.state := by
  rw [xmShardGetCurIp, lookupIndex_state]

theorem shardGetNextElem_state {fuel : Nat} {r : XmShard × Nat}
    (h : shardGetNextElem fuel s = some r) : r.1.state = s.state := by
  induction fuel generalizing s with
  | zero => cases h
  | succ fuel ih =>
    rw [shardGetNextElem] at h
    split at h
    · exact ih (s := s.mulFactor) h
    · cases h
      rfl

theorem getNextIpLoop_sameQuota {fuel : Nat} {r : XmShard × Nat}
    (h : getNextIpLoop fuel s = some r) : s.SameQuota r.1 := by
  induction fuel generalizing s with
  | zero => cases h
  | succ fuel ih =>
    rw [getNextIpLoop] at h
    cases hn : shardGetNextElem fuel s with
    | none =>
      rw [hn] at h
      cases h
    | some q =>
      have hq : s.SameQuota q.1 := by
        rw [XmShard.SameQuota, shardGetNextElem_state hn]
        exact ⟨rfl, rfl⟩
      simp only [hn] at h
      split at h
      · cases h
        exact hq
      · split at h
        · cases h
          simpa [XmShard.SameQuota, XmShard.countWhitelisted] using hq
        · exact hq.trans (ih (s := q.1.countBlacklisted) h)

theorem xmShardGetNextIp_sameQuota {fuel : Nat} {r : XmShard × Nat}
    (h : xmShardGetNextIp fuel s = some r) : s.SameQuota r.1 := by
  unfold xmShardGetNextIp at h
  split at h
  · cases h
    exact .refl s
  · exact getNextIpLoop_sameQuota h

end

theorem xmShardCreate_maxTargets {fuel shardIdx numShards threadIdx numThreads maxTotal maxIndex : Nat}
    {st : ShardState} {c : XmCycle} {wblist : XmWblist} {s : XmShard} (hM : 0 < maxTotal)
    (h : xmShardCreate fuel st shardIdx numShards threadIdx numThreads maxTotal maxIndex c wblist =
      some s) :
    s.state.maxTargets = maxTargetsOf maxTotal (numShards * numThreads)
      (subIdx shardIdx threadIdx numThreads) := by
  obtain ⟨r, hr, rfl⟩ := Option.map_eq_some_iff.mp h
  have hnew : (newShard st (numShards * numThreads) (subIdx shardIdx threadIdx numThreads) maxTotal
      maxIndex c wblist).state.maxTargets = maxTargetsOf maxTotal (numShards * numThreads)
        (subIdx shardIdx threadIdx numThreads) := by
    simp [newShard, hM]
  unfold shardRollToValid at hr
  split at hr
  · cases hr
    exact hnew
  · exact (xmShardGetNextIp_sameQuota hr).1.trans hnew

end Xmap.Target
