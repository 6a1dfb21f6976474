import Xmap.Target.Lemmas.Quota
import Xmap.Task.Lemmas.Work

/-!
# Senders within their quota

A sender counts the hosts it sends to in its shard and takes another one only below its quota.
-/

namespace Xmap.Task

open Xmap.Lib Xmap.Target

/-! ## The addresses on the list -/

section
variable {context : SendTaskContext} {pbm : Pbm} {fuel ip : Nat} {s : XmShard}
  {r : XmShard × Option Nat}

theorem XmShard.sameQuota_countTried (s : XmShard) : s.SameQuota (XmShard.countTried s) := ⟨rfl, rfl⟩

theorem skipUnlisted_sameQuota (h : skipUnlisted pbm fuel s ip = some r) : s.SameQuota r.1 := by
  induction fuel generalizing s ip with
  | zero => cases h
  | succ fuel ih =>
    rw [skipUnlisted] at h
    split at h
    · cases h
      exact .refl s
    · split at h
      · cases h
      · next t ip' hn =>
        have ht : s.SameQuota (XmShard.countTried t) :=
          (xmShardGetNextIp_sameQuota hn).trans (XmShard.sameQuota_countTried t)
        split at h
        · cases h
          exact ht
        · exact ht.trans (ih h)

theorem sameQuota_getCurIp (s : XmShard) : s.SameQuota (xmShardGetCurIp s).1 := by
  simp [XmShard.SameQuota]

theorem firstIp_sameQuota (h : firstIp context fuel s = some r) : s.SameQuota r.1 := by
  unfold firstIp at h
  dsimp only at h
  split at h
  · cases h
    exact sameQuota_getCurIp s
  · exact (sameQuota_getCurIp s).trans (skipUnlisted_sameQuota h)

theorem nextIp_sameQuota (h : nextIp context fuel s = some r) :
    (XmShard.countSent s).SameQuota r.1 := by
  unfold nextIp at h
  split at h
  · cases h
  · next t ip hn =>
    have ht := xmShardGetNextIp_sameQuota hn
    split at h
    · cases h
      exact ht
    · split at h
      · cases h
        exact ht
      · exact ht.trans (skipUnlisted_sameQuota h)

end

/-! ## A sender -/

/-- The sender has the quota and, if there is one, has counted its hosts and is within it. -/
structure Sender.WithinQuota (quota : Nat) (x : Sender) : Prop where
  maxTargets : x.shard.state.maxTargets = quota
  counted : quota ≠ 0 → x.hosts.length ≤ x.shard.state.sent
  hosts : quota ≠ 0 → x.hosts.length ≤ quota
  room : x.pc = .timed ∨ x.pc = .active → quota ≠ 0 → x.shard.state.sent < quota

/-- So is the sender after the step. -/
def SendStep.WithinQuota (quota : Nat) : SendStep → Prop
  | .goesOn x => x.WithinQuota quota
  | .leaves x exit => ∀ time, ({ x with pc := .returned exit time } : Sender).WithinQuota quota

section
variable {context : SendTaskContext} {shared : SendShared} {fuel quota : Nat} {x : Sender}
  {r : SendStep}

theorem Sender.WithinQuota.leaves (h : x.WithinQuota quota) (exit : SendExit) :
    (SendStep.leaves x exit).WithinQuota quota :=
  fun _ => ⟨h.maxTargets, h.counted, h.hosts, by simp⟩

theorem Sender.withinQuota_take {q : XmShard × Option Nat} (hq : q.1.state.maxTargets = quota)
    (h : quota ≠ 0 → x.hosts.length ≤ q.1.state.sent ∧ x.hosts.length ≤ quota) :
    (x.take q).WithinQuota quota := by
  obtain ⟨s, ip⟩ := q
  cases ip with
  | none => exact fun _ => ⟨hq, fun hne => (h hne).1, fun hne => (h hne).2, by simp⟩
  | some ip => exact ⟨hq, fun hne => (h hne).1, fun hne => (h hne).2, by simp⟩

theorem SendMove.withinQuota (h : SendMove context shared x r) (hx : x.WithinQuota quota)
    (hlt : quota < 2 ^ 32) : r.WithinQuota quota := by
  cases h with
  | first fuel hpc hr =>
    obtain ⟨hmax, hsent⟩ := firstIp_sameQuota hr
    apply Sender.withinQuota_take (hmax.trans hx.maxTargets)
    intro hne
    rw [hsent]
    exact ⟨hx.counted hne, hx.hosts hne⟩
  | complete hpc hcomplete => exact hx.leaves _
  | quota hpc hquota => exact hx.leaves _
  | pass hpc hquota hcomplete =>
    refine ⟨hx.maxTargets, hx.counted, hx.hosts, fun _ hne => ?_⟩
    -- the test of the quota has failed
    simp only [QuotaReached, hx.maxTargets, not_and_or, not_or, not_le] at hquota
    exact (hquota.resolve_left (not_not.mpr hne)).1
  | runtime hpc hover => exact hx.leaves _
  | depleted hpc hdone hover => exact hx.leaves _
  | active hpc hdone hover =>
    exact ⟨hx.maxTargets, hx.counted, hx.hosts, fun _ => hx.room (Or.inl hpc)⟩
  | next fuel hpc hr =>
    obtain ⟨hmax, hsent⟩ := nextIp_sameQuota hr
    apply Sender.withinQuota_take (hmax.trans hx.maxTargets)
    intro hne
    have hcounted := hx.counted hne
    have hroom := hx.room (Or.inr hpc) hne
    have hone : (XmShard.countSent x.shard).state.sent = x.shard.state.sent + 1 :=
      Nat.mod_eq_of_lt (by omega)
    rw [hsent, hone, List.length_cons]
    constructor <;> omega

end

/-! ## An instance -/

/-- The senders are within the quotas of their shards. -/
def WorkSys.WithinQuotas (shards : List XmShard) (s : WorkSys) : Prop :=
  List.Forall₂ (fun shard x => x.WithinQuota shard.state.maxTargets) shards s.senders

theorem forall₂_set {R : XmShard → Sender → Prop} {l : List XmShard} {m : List Sender} {i : Nat}
    {x y : Sender} (h : List.Forall₂ R l m) (hx : m[i]? = some x)
    (hy : ∀ shard ∈ l, R shard x → R shard y) : List.Forall₂ R l (m.set i y) := by
  induction h generalizing i with
  | nil => cases hx
  | @cons shard z l m hz hrest ih =>
    cases i with
    | zero =>
      cases hx
      exact .cons (hy shard List.mem_cons_self hz) hrest
    | succ i => exact .cons hz (ih hx fun shard hmem => hy shard (List.mem_cons_of_mem _ hmem))

theorem WorkSys.WithinQuotas.step {context : WorkContext} {shards : List XmShard} {s t : WorkSys}
    {a : WorkAction} (h : workStep context s a = some t) (hs : s.WithinQuotas shards)
    (hlt : ∀ shard ∈ shards, shard.state.maxTargets < 2 ^ 32) : t.WithinQuotas shards := by
  cases workStep_move h with
  | tick hle => exact hs
  | @sender i fuel x r hx hstep =>
    have hr : ∀ shard ∈ shards, x.WithinQuota shard.state.maxTargets →
        r.WithinQuota shard.state.maxTargets :=
      fun shard hmem hq => (sendStep_move hstep).withinQuota hq (hlt shard hmem)
    cases r with
    | goesOn y => exact forall₂_set hs hx hr
    | leaves y exit => exact forall₂_set hs hx fun shard hmem hq => hr shard hmem hq s.clock
  | receiver hrunning hrecv =>
    rw [WorkSys.WithinQuotas, afterRound_senders]
    exact hs

theorem xmWorkStart_withinQuotas (shards : List XmShard) (recv : RecvSys) (clock : ℚ) :
    (xmWorkStart shards recv clock).WithinQuotas shards := by
  simp only [WorkSys.WithinQuotas, xmWorkStart, xmSendTasks, List.forall₂_map_right_iff,
    List.forall₂_same]
  exact fun shard _ => ⟨rfl, fun _ => Nat.zero_le _, fun _ => Nat.zero_le _, by simp⟩

/-- In every state of a run the senders are within the quotas of their shards. -/
theorem workStates_withinQuotas {context : WorkContext} {shards : List XmShard} {recv : RecvSys}
    {clock : ℚ} {acts : List WorkAction} (hlt : ∀ shard ∈ shards, shard.state.maxTargets < 2 ^ 32) :
    ∀ s ∈ workStates context shards recv clock acts, s.WithinQuotas shards :=
  states_invariant (fun _ _ _ ht hs => hs.step ht hlt) (xmWorkStart_withinQuotas shards recv clock)

end Xmap.Task
