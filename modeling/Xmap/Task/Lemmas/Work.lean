import Xmap.Task.Work

/-!
# Steps of an instance

What a step of a sender and a step of an instance can be.
-/

namespace Xmap.Task

open Xmap.Lib Xmap.Target

/-- The ways in which a sender takes a step. -/
inductive SendMove (context : SendTaskContext) (shared : SendShared) (x : Sender) : SendStep → Prop where
  | first (fuel : Nat) {r : XmShard × Option Nat} (hpc : x.pc = .begin)
      (hr : firstIp context fuel x.shard = some r) : SendMove context shared x (x.take r)
  | complete (hpc : x.pc = .head) (hcomplete : shared.recvComplete = true) :
      SendMove context shared x (.leaves x .recvComplete)
  | quota (hpc : x.pc = .head) (hquota : QuotaReached x.shard) :
      SendMove context shared x (.leaves x .maxTargets)
  | pass (hpc : x.pc = .head) (hquota : ¬ QuotaReached x.shard) (hcomplete : shared.recvComplete = false) :
      SendMove context shared x (.goesOn { x with pc := .timed })
  | runtime (hpc : x.pc = .timed) (hover : RuntimeOver context shared.now shared.start) :
      SendMove context shared x (.leaves x .maxRuntime)
  | depleted (hpc : x.pc = .timed) (hdone : x.currentIp = xmShardDone)
      (hover : ¬ RuntimeOver context shared.now shared.start) : SendMove context shared x (.leaves x .depleted)
  | active (hpc : x.pc = .timed) (hdone : x.currentIp ≠ xmShardDone)
      (hover : ¬ RuntimeOver context shared.now shared.start) :
      SendMove context shared x (.goesOn { x with pc := .active })
  | next (fuel : Nat) {r : XmShard × Option Nat} (hpc : x.pc = .active)
      (hr : nextIp context fuel x.shard = some r) :
      SendMove context shared x ({ x with hosts := x.currentIp :: x.hosts }.take r)

def Sender.Returned (x : Sender) : Prop := ∃ exit time, x.pc = .returned exit time

section
variable {context : SendTaskContext} {shared : SendShared} {fuel : Nat} {x : Sender} {r : SendStep}

theorem sendStep_move (h : sendStep context shared fuel x = some r) :
    SendMove context shared x r := by
  unfold sendStep at h
  split at h
  · next hpc =>
    obtain ⟨_, hr, rfl⟩ := Option.map_eq_some_iff.mp h
    exact .first fuel hpc hr
  · next hpc =>
    split at h
    · next hcomplete =>
      cases h
      exact .complete hpc hcomplete
    · next hcomplete =>
      split at h
      · next hquota =>
        cases h
        exact .quota hpc hquota
      · next hquota =>
        cases h
        exact .pass hpc hquota (Bool.eq_false_iff.mpr hcomplete)
  · next hpc =>
    split at h
    · next hover =>
      cases h
      exact .runtime hpc hover
    · next hover =>
      split at h
      · next hdone =>
        cases h
        exact .depleted hpc hdone hover
      · next hdone =>
        cases h
        exact .active hpc hdone hover
  · next hpc =>
    obtain ⟨_, hr, rfl⟩ := Option.map_eq_some_iff.mp h
    exact .next fuel hpc hr
  · cases h

theorem Sender.not_returned_of_take {y : Sender} {r : XmShard × Option Nat}
    (h : x.take r = .goesOn y) : ¬ y.Returned := by
  obtain ⟨s, ip⟩ := r
  cases ip with
  | none => cases h
  | some ip =>
    cases h
    rintro ⟨exit, time, hpc⟩
    cases hpc

theorem SendMove.not_returned {y : Sender} (h : SendMove context shared x (.goesOn y)) :
    ¬ y.Returned := by
  generalize hr : SendStep.goesOn y = r at h
  cases h with
  | first fuel hpc hf => exact Sender.not_returned_of_take hr.symm
  | complete hpc hcomplete => cases hr
  | quota hpc hquota => cases hr
  | pass hpc hquota hcomplete =>
    cases hr
    rintro ⟨exit, time, h⟩
    cases h
  | runtime hpc hover => cases hr
  | depleted hpc hdone hover => cases hr
  | active hpc hdone hover =>
    cases hr
    rintro ⟨exit, time, h⟩
    cases h
  | next fuel hpc hn => exact Sender.not_returned_of_take hr.symm

end

/-- The ways in which an instance takes a step. -/
inductive WorkMove (context : WorkContext) (s : WorkSys) : WorkAction → WorkSys → Prop where
  | tick {time : ℚ} (h : s.clock ≤ time) : WorkMove context s (.tick time) { s with clock := time }
  | sender {i fuel : Nat} {x : Sender} {r : SendStep} (hx : s.senders[i]? = some x)
      (hstep : sendStep context.send s.shared fuel x = some r) :
      WorkMove context s (.sender i fuel) (s.afterSend i r)
  | receiver {deliveries : List Delivery} {recv : RecvSys} (hrunning : s.recvReturned = false)
      (hrecv : receive context.recv (s.deliver deliveries) s.recv = some recv) :
      WorkMove context s (.receiver deliveries) (s.afterRound context recv)

section
variable {context : WorkContext} {s t : WorkSys} {a : WorkAction}

theorem workStep_move (h : workStep context s a = some t) : WorkMove context s a t := by
  cases a with
  | tick time =>
    simp only [workStep] at h
    split at h
    · next hle =>
      cases h
      exact .tick hle
    · cases h
  | sender i fuel =>
    simp only [workStep] at h
    split at h
    · cases h
    · next x hx =>
      obtain ⟨r, hr, rfl⟩ := Option.map_eq_some_iff.mp h
      exact .sender hx hr
  | receiver deliveries =>
    simp only [workStep] at h
    split at h
    · cases h
    · next hrunning =>
      obtain ⟨recv, hrecv, rfl⟩ := Option.map_eq_some_iff.mp h
      exact .receiver (Bool.eq_false_iff.mpr hrunning) hrecv

/-! ## What a round of the receiver leaves alone -/

@[simp] theorem afterRound_start (recv : RecvSys) : (s.afterRound context recv).start = s.start := by
  unfold WorkSys.afterRound
  split <;> rfl

@[simp] theorem afterRound_complete (recv : RecvSys) :
    (s.afterRound context recv).complete = s.complete := by
  unfold WorkSys.afterRound
  split <;> rfl

@[simp] theorem afterRound_began (recv : RecvSys) : (s.afterRound context recv).began = s.began := by
  unfold WorkSys.afterRound
  split <;> rfl

@[simp] theorem afterRound_senders (recv : RecvSys) :
    (s.afterRound context recv).senders = s.senders := by
  unfold WorkSys.afterRound
  split <;> rfl

end

end Xmap.Task
