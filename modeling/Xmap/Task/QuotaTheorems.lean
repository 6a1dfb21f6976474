import Xmap.Lib.Shares
import Xmap.Target.WorkTheorems
import Xmap.Task.Lemmas.Quota

/-!
# Theorems on the cap of a scan

The subshards of a scan are numbered from 1, so the first share of the remainder is never handed out.
-/

namespace Xmap.Task

open Xmap.Lib Xmap.Target

/-- The context of an instance of a scan with the given cap, whose senders the command line gives. -/
def scanContext (maxTargets totalShards : Nat) (senderThreads : Option Int) (wblist : XmWblist)
    (shardNum : Nat) : SendContext :=
  { shardNum := shardNum
    totalShards := totalShards
    senders := contextSenders senderThreads maxTargets
    maxTargets := maxTargets
    wblist := wblist }

/-- `xm_work_create` builds the shards of the instances. -/
def ScanBuilt (maxTargets totalShards : Nat) (senderThreads : Option Int) (wblist : Nat → XmWblist)
    (st : Nat → Nat → ShardState) (aes : Nat → XmAesrand) (shards : Nat → List XmShard) : Prop :=
  ∀ n < totalShards, ∃ fuel,
    workCreateShards fuel (st n) (scanContext maxTargets totalShards senderThreads (wblist n) n)
      (contextSenders senderThreads maxTargets) 0 (aes n) = some (shards n)

def quotas (shards : List XmShard) : List Nat := shards.map fun s => s.state.maxTargets

def WorkSys.hostCounts (s : WorkSys) : List Nat := s.senders.map fun x => x.hosts.length

/-- A state that the instance with these shards can reach. -/
def Reaches (shards : List XmShard) (s : WorkSys) : Prop :=
  ∃ context recv clock acts, s ∈ workStates context shards recv clock acts

/-- The quotas add up to the cap, and neither a sender nor the scan goes beyond. -/
structure CapHolds (maxTargets totalShards : Nat) (shards : Nat → List XmShard) : Prop where
  sum : ∑ n ∈ Finset.range totalShards, (quotas (shards n)).sum = maxTargets
  senders : ∀ n < totalShards, ∀ s, Reaches (shards n) s →
    List.Forall₂ (· ≤ ·) s.hostCounts (quotas (shards n))
  total : ∀ s : Nat → WorkSys, (∀ n < totalShards, Reaches (shards n) (s n)) →
    ∑ n ∈ Finset.range totalShards, (s n).hostCounts.sum ≤ maxTargets

theorem contextSenders_lt (senderThreads : Option Int) (maxTargets : Nat) :
    contextSenders senderThreads maxTargets < 2 ^ 8 := by
  unfold contextSenders
  dsimp only
  split
  · split <;> decide
  · split <;> omega

section
variable {maxTargets totalShards : Nat} {senderThreads : Option Int} {wblist : Nat → XmWblist}
  {st : Nat → Nat → ShardState} {aes : Nat → XmAesrand} {shards : Nat → List XmShard}

theorem ScanBuilt.quotas_eq (hM : 1 ≤ maxTargets)
    (hb : ScanBuilt maxTargets totalShards senderThreads wblist st aes shards) {n : Nat}
    (hn : n < totalShards) :
    quotas (shards n) = (List.range (contextSenders senderThreads maxTargets)).map fun t =>
      share maxTargets (totalShards * contextSenders senderThreads maxTargets)
        (n * contextSenders senderThreads maxTargets + t + 1) := by
  obtain ⟨fuel, hshards⟩ := hb n hn
  obtain ⟨f, hf, hbuilt⟩ := workCreateShards_eq_some.mp hshards
  rw [hf, quotas, List.map_map]
  apply List.map_congr_left
  intro t ht
  have ht := List.mem_range.mp ht
  obtain ⟨c, _, hc⟩ := hbuilt t ht
  have hidx : (0 + t + 1) % 2 ^ 8 = t + 1 := by
    have := contextSenders_lt senderThreads maxTargets
    rw [Nat.zero_add]
    exact Nat.mod_eq_of_lt (by omega)
  rw [hidx] at hc
  exact xmShardCreate_maxTargets hM hc

theorem ScanBuilt.sum_eq_iff (hM : 1 ≤ maxTargets)
    (hb : ScanBuilt maxTargets totalShards senderThreads wblist st aes shards) :
    ∑ n ∈ Finset.range totalShards, (quotas (shards n)).sum = maxTargets ↔
      totalShards * contextSenders senderThreads maxTargets ∣ maxTargets := by
  rw [← sum_share_succ_eq_iff, ← sum_blocks]
  have hsum : ∀ n ∈ Finset.range totalShards, (quotas (shards n)).sum =
      ∑ t ∈ Finset.range (contextSenders senderThreads maxTargets),
        share maxTargets (totalShards * contextSenders senderThreads maxTargets)
          (n * contextSenders senderThreads maxTargets + t + 1) := by
    intro n hn
    rw [hb.quotas_eq hM (Finset.mem_range.mp hn)]
    rfl
  rw [Finset.sum_congr rfl hsum]

theorem Reaches.hostCounts_le {l : List XmShard} {s : WorkSys} (h : Reaches l s)
    (hquotas : ∀ q ∈ quotas l, q ≠ 0 ∧ q < 2 ^ 32) :
    List.Forall₂ (· ≤ ·) s.hostCounts (quotas l) := by
  obtain ⟨context, recv, clock, acts, hs⟩ := h
  have hof : ∀ shard ∈ l, shard.state.maxTargets ≠ 0 ∧ shard.state.maxTargets < 2 ^ 32 :=
    fun shard hmem => hquotas _ (List.mem_map_of_mem hmem)
  have hwithin := workStates_withinQuotas (fun shard hmem => (hof shard hmem).2) s hs
  have hboth := (List.forall₂_and_left (p := fun shard : XmShard => shard.state.maxTargets ≠ 0) l
    s.senders).mpr ⟨fun shard hmem => (hof shard hmem).1, hwithin⟩
  rw [WorkSys.hostCounts, quotas, List.forall₂_map_left_iff, List.forall₂_map_right_iff]
  exact (hboth.imp fun shard x hx => hx.2.hosts hx.1).flip

/-- The cap holds exactly where the number of subshards divides it. -/
theorem capHolds_iff (hM : 1 ≤ maxTargets) (hlt : maxTargets < 2 ^ 32)
    (hb : ScanBuilt maxTargets totalShards senderThreads wblist st aes shards) :
    CapHolds maxTargets totalShards shards ↔
      totalShards * contextSenders senderThreads maxTargets ∣ maxTargets := by
  constructor
  · intro hcap
    exact (hb.sum_eq_iff hM).mp hcap.sum
  · intro hdvd
    have hsum := (hb.sum_eq_iff hM).mpr hdvd
    have hsenders : ∀ n < totalShards, ∀ s, Reaches (shards n) s →
        List.Forall₂ (· ≤ ·) s.hostCounts (quotas (shards n)) := by
      intro n hn s hs
      apply hs.hostCounts_le
      intro q hq
      rw [hb.quotas_eq hM hn] at hq
      obtain ⟨t, _, rfl⟩ := List.mem_map.mp hq
      refine ⟨?_, share_le.trans_lt hlt⟩
      rw [share_eq_of_dvd hdvd]
      exact (Nat.div_pos (Nat.le_of_dvd hM hdvd) (Nat.pos_of_dvd_of_pos hdvd hM)).ne'
    refine ⟨hsum, hsenders, fun s hs => ?_⟩
    calc ∑ n ∈ Finset.range totalShards, (s n).hostCounts.sum
        ≤ ∑ n ∈ Finset.range totalShards, (quotas (shards n)).sum :=
          Finset.sum_le_sum fun n hn => by
            have hn := Finset.mem_range.mp hn
            exact (hsenders n hn _ (hs n hn)).sum_le_sum
      _ = maxTargets := hsum

end

/-! ## Scans of one address -/

/-- The shards of the senders that an instance on its own has. -/
def hostShards (offsets : Nat → Fin 257) (senderThreads : Option Int) (maxTargets : Nat) :
    List XmShard :=
  (List.range (contextSenders senderThreads maxTargets)).map fun t =>
    newShard zeroState (contextSenders senderThreads maxTargets) (t + 1) maxTargets 1
      (leastCycleFrom (offsets t)) (builtList quadHost hostArgs)

theorem hostShards_built {offsets : Nat → Fin 257} {senderThreads : Option Int} {maxTargets : Nat}
    (hfirst : ∀ t < contextSenders senderThreads maxTargets,
      (shardParams (leastCycleFrom (offsets t)) (contextSenders senderThreads maxTargets)
        (t + 1)).first = 1) :
    ScanBuilt maxTargets 1 senderThreads (fun _ => builtList quadHost hostArgs)
      (fun _ _ => zeroState) (fun _ => wordsOf offsets)
      (fun _ => hostShards offsets senderThreads maxTargets) := by
  intro n hn
  obtain rfl : n = 0 := by omega
  exact ⟨0, hostArgs_createShards (contextSenders_lt _ _) hfirst maxTargets⟩

theorem capHolds_iff_single :
    CapHolds 1 1 (fun _ => hostShards 0 none 1) ↔ 1 * contextSenders none 1 ∣ 1 :=
  capHolds_iff (by decide) (by decide) (hostShards_built (by decide +kernel))

/-- Two senders with a cap of five have quotas of two each. -/
theorem capHolds_two_senders : ∃ shards,
    ScanBuilt 5 1 (some 2) (fun _ => builtList quadHost hostArgs) (fun _ _ => zeroState)
      (fun _ => wordsOf fun t => if t = 0 then 128 else 0) shards ∧
    quotas (shards 0) = [2, 2] ∧ ¬ CapHolds 5 1 shards := by
  have hquotas : quotas (hostShards (fun t => if t = 0 then 128 else 0) (some 2) 5) = [2, 2] := rfl
  refine ⟨_, hostShards_built (by decide +kernel), hquotas, fun hcap => ?_⟩
  have hsum := hcap.sum
  simp [hquotas] at hsum

end Xmap.Task
