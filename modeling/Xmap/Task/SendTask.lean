import Xmap.Target.Shard
import Xmap.Task.Pbm

/-!
# The senders (`xm_send_task`)

A sender goes through the addresses of its shard, with the tests of its loop in between. One of its steps
reads at most one thing that other threads write, or the clock. Times are in seconds.
-/

namespace Xmap.Task

open Xmap.Target

/-- The fields of `xm_context_t` that the loop of a sender reads. -/
structure SendTaskContext where
  maxRuntime : UInt32
  /-- `list_of_ips_pbm`, when a list is given. -/
  listOfIps : Option Pbm

/-- The ways out of the loop. -/
inductive SendExit where
  | recvComplete
  | maxTargets
  | maxRuntime
  | depleted
  | cleanup
deriving DecidableEq, Repr

/-- Where a sender stands: before the loop, at its head, after the test of the targets, before it sends, or
at its end, with the time. -/
inductive SendPc where
  | begin
  | head
  | timed
  | active
  | returned (exit : SendExit) (time : ℚ)
deriving DecidableEq

structure Sender where
  shard : XmShard
  currentIp : Nat
  pc : SendPc
  /-- The hosts that probes have been sent to, the last one first. -/
  hosts : List Nat

/-- What a sender reads besides. -/
structure SendShared where
  recvComplete : Bool
  now : ℚ
  start : ℚ

/-! ## Addresses on the list -/

def XmShard.countTried (s : XmShard) : XmShard :=
  { s with state := { s.state with triedSent := (s.state.triedSent + 1) % 2 ^ 32 } }

def XmShard.countSent (s : XmShard) : XmShard :=
  { s with state := { s.state with
      sent := (s.state.sent + 1) % 2 ^ 32
      triedSent := (s.state.triedSent + 1) % 2 ^ 32 } }

/-- The loops that take addresses until one is on the list. They give no address when they go to
`cleanup`. -/
def skipUnlisted (pbm : Pbm) : Nat → XmShard → Nat → Option (XmShard × Option Nat)
  | 0, _, _ => none
  | fuel + 1, s, ip =>
      if xmPbmCheck pbm (UInt32.ofNat ip) then some (s, some ip)
      else
        match xmShardGetNextIp fuel s with
        | none => none
        | some (s, ip) =>
          if ip = xmShardDone then some (XmShard.countTried s, none)
          else skipUnlisted pbm fuel (XmShard.countTried s) ip

/-- The first address. -/
def firstIp (context : SendTaskContext) (fuel : Nat) (s : XmShard) :
    Option (XmShard × Option Nat) :=
  let r := xmShardGetCurIp s
  match context.listOfIps with
  | none => some (r.1, some r.2)
  | some pbm => skipUnlisted pbm fuel r.1 r.2

/-- The address after one that probes have been sent to. -/
def nextIp (context : SendTaskContext) (fuel : Nat) (s : XmShard) : Option (XmShard × Option Nat) :=
  match xmShardGetNextIp fuel (XmShard.countSent s) with
  | none => none
  | some (s, ip) =>
    match context.listOfIps with
    | none => some (s, some ip)
    | some pbm => if ip = xmShardDone then some (s, some ip) else skipUnlisted pbm fuel s ip

/-! ## The loop -/

/-- The test of the quota, of which 0 is none. -/
def QuotaReached (s : XmShard) : Prop :=
  s.state.maxTargets ≠ 0 ∧
    (s.state.maxTargets ≤ s.state.sent ∨ s.state.maxTargets ≤ s.state.triedSent)

instance (s : XmShard) : Decidable (QuotaReached s) := inferInstanceAs (Decidable (_ ∧ _))

/-- The test of `max_runtime`, of which 0 is none. -/
def RuntimeOver (context : SendTaskContext) (now start : ℚ) : Prop :=
  context.maxRuntime ≠ 0 ∧ (context.maxRuntime.toNat : ℚ) ≤ now - start

instance (context : SendTaskContext) (now start : ℚ) : Decidable (RuntimeOver context now start) :=
  inferInstanceAs (Decidable (_ ∧ _))

/-- A step of a sender: it goes on, or it leaves. -/
inductive SendStep where
  | goesOn (x : Sender)
  | leaves (x : Sender) (exit : SendExit)

/-- The sender with its next address, if there is one. -/
def Sender.take (x : Sender) : XmShard × Option Nat → SendStep
  | (s, none) => .leaves { x with shard := s } .cleanup
  | (s, some ip) => .goesOn { x with shard := s, currentIp := ip, pc := .head }

/-- The next step of `_send_task_run`. There is none once it has returned, or where the fuel does not do for
the walk to the next address. -/
def sendStep (context : SendTaskContext) (shared : SendShared) (fuel : Nat) (x : Sender) :
    Option SendStep :=
  match x.pc with
  | .begin => (firstIp context fuel x.shard).map x.take
  | .head =>
      if shared.recvComplete then some (.leaves x .recvComplete)
      else if QuotaReached x.shard then some (.leaves x .maxTargets)
      else some (.goesOn { x with pc := .timed })
  | .timed =>
      if RuntimeOver context shared.now shared.start then some (.leaves x .maxRuntime)
      else if x.currentIp = xmShardDone then some (.leaves x .depleted)
      else some (.goesOn { x with pc := .active })
  | .active =>
      (nextIp context fuel x.shard).map { x with hosts := x.currentIp :: x.hosts }.take
  | .returned _ _ => none

end Xmap.Task
