import Xmap.Lib.Steps
import Xmap.Task.RecvTask
import Xmap.Task.SendTask

/-!
# An instance at work (`xm_work_start`)

The senders and the receiver of an instance run at the same time. They share the fields of the context:
`xsend` is set up by `_context_init`, and the receiver writes `xrecv`.
-/

namespace Xmap.Task

open Xmap.Lib Xmap.Probe Xmap.Target

/-! ## A round of the receiver -/

/-- The test of the cooldown. -/
def CooldownOver (context : RecvContext) (sendComplete : Bool) (now sendFinish : ℚ) : Prop :=
  sendComplete = true ∧ (context.cooldownSecs : ℚ) < now - sendFinish

instance (context : RecvContext) (sendComplete : Bool) (now sendFinish : ℚ) :
    Decidable (CooldownOver context sendComplete now sendFinish) :=
  inferInstanceAs (Decidable (_ ∧ _))

/-- The tests at the end of a round of `_recv_task_run`. -/
def RecvLeaves (context : RecvContext) (s : RecvSys) (sendComplete : Bool) (now sendFinish : ℚ) :
    Prop :=
  (resultLimit context ≠ 0 ∧ resultLimit context ≤ s.task.xrecv.filterSuccess) ∨
    CooldownOver context sendComplete now sendFinish

instance (context : RecvContext) (s : RecvSys) (sendComplete : Bool) (now sendFinish : ℚ) :
    Decidable (RecvLeaves context s sendComplete now sendFinish) :=
  inferInstanceAs (Decidable (_ ∨ _))

/-- The loop of the receiver goes round until it leaves. -/
theorem recvLoop_cons (context : RecvContext) (r : Round) (rounds : List Round) (s : RecvSys) :
    recvLoop context (r :: rounds) s =
      match receive context r.deliveries s with
      | none => none
      | some s =>
        if RecvLeaves context s r.sendComplete r.now r.sendFinish then some (s, rounds)
        else recvLoop context rounds s := by
  rw [recvLoop]
  cases receive context r.deliveries s with
  | none => rfl
  | some s =>
    dsimp only
    split
    · next hlimit =>
      have hleaves : RecvLeaves context s r.sendComplete r.now r.sendFinish := Or.inl hlimit
      rw [if_pos hleaves]
    · next hlimit =>
      split
      · next hcooldown =>
        have hleaves : RecvLeaves context s r.sendComplete r.now r.sendFinish := Or.inr hcooldown
        rw [if_pos hleaves]
      · next hcooldown =>
        have hstays : ¬ RecvLeaves context s r.sendComplete r.now r.sendFinish :=
          not_or.mpr ⟨hlimit, hcooldown⟩
        rw [if_neg hstays]

/-! ## The system -/

structure WorkContext where
  send : SendTaskContext
  recv : RecvContext

/-- An instance, with the time at which its first sender began. -/
structure WorkSys where
  clock : ℚ
  start : ℚ
  finish : ℚ
  complete : Bool
  began : Option ℚ
  senders : List Sender
  recv : RecvSys
  recvReturned : Bool

/-- The senders of the shards. -/
def xmSendTasks (shards : List XmShard) : List Sender := shards.map fun s => ⟨s, 0, .begin, []⟩

/-- The start of the work, with `xsend` as `_context_init` leaves it. -/
def xmWorkStart (shards : List XmShard) (recv : RecvSys) (clock : ℚ) : WorkSys where
  clock := clock
  start := 0
  finish := 0
  complete := false
  began := none
  senders := xmSendTasks shards
  recv := recv
  recvReturned := false

inductive WorkAction where
  /-- Time passes. -/
  | tick (time : ℚ)
  /-- A step of a sender, with fuel for the walk of its shard. -/
  | sender (i fuel : Nat)
  /-- A round of the receiver. -/
  | receiver (deliveries : List Delivery)

/-- What a sender reads of the rest of the instance. -/
def WorkSys.shared (s : WorkSys) : SendShared := ⟨s.recv.task.xrecv.complete, s.clock, s.start⟩

/-- The instance after a step of sender `i`. -/
def WorkSys.afterSend (s : WorkSys) (i : Nat) : SendStep → WorkSys
  | .goesOn x => { s with senders := s.senders.set i x, began := some (s.began.getD s.clock) }
  | .leaves x exit =>
      { s with senders := s.senders.set i { x with pc := .returned exit s.clock }
               began := some (s.began.getD s.clock) }

def RecvSys.setComplete (s : RecvSys) : RecvSys :=
  { s with task := { s.task with xrecv := { s.task.xrecv with complete := true } } }

/-- The instance after a round of the receiver. -/
def WorkSys.afterRound (context : WorkContext) (s : WorkSys) (recv : RecvSys) : WorkSys :=
  if RecvLeaves context.recv recv s.complete s.clock s.finish then
    { s with recv := recv.setComplete, recvReturned := true }
  else { s with recv := recv }

/-- The packets of a round see `xsend.complete` as it is. -/
def WorkSys.deliver (s : WorkSys) (deliveries : List Delivery) : List Delivery :=
  deliveries.map fun d => { d with sendComplete := s.complete }

def workStep (context : WorkContext) (s : WorkSys) : WorkAction → Option WorkSys
  | .tick time => if s.clock ≤ time then some { s with clock := time } else none
  | .sender i fuel =>
      match s.senders[i]? with
      | none => none
      | some x => (sendStep context.send s.shared fuel x).map (s.afterSend i)
  | .receiver deliveries =>
      if s.recvReturned then none
      else (receive context.recv (s.deliver deliveries) s.recv).map (s.afterRound context)

/-- The states of an instance over a run. -/
def workStates (context : WorkContext) (shards : List XmShard) (recv : RecvSys) (clock : ℚ)
    (acts : List WorkAction) : List WorkSys :=
  states (workStep context) (xmWorkStart shards recv clock) acts

end Xmap.Task
