import Xmap.Lib.Wire
import Xmap.Scan.Answers

/-!
# A scan over the network

The senders and the receiver of an instance, each sender with its buffer, and the network between them and the hosts.
All of them call `xm_validate_gen`, which writes a static block without a lock: these are the runs in which no two of
its calls overlap, so that each returns the words of its own addresses.
-/

namespace Xmap.Scan

open Xmap.Lib Xmap.Probe Xmap.Shm Xmap.Target Xmap.Task

/-- An instance at work, with all that it sent and got. -/
structure ScanSys where
  work : WorkSys
  buffers : List SendBuffer
  wire : Wire Sent Packet
  frames : List Frame

/-- A packet on its way that the driver hands over, with what goes on while its record is stored. -/
structure Arrival where
  index : Nat
  fakeEthHdr : Mem
  reads : List Nat
  flushReads : Nat
  timems : UInt64

inductive ScanAction where
  | tick (time : ℚ)
  | sender (i fuel : Nat) (inputs : SendInputs)
  | network (e : WireEvent Packet)
  | receiver (arrivals : List Arrival)

section
variable (context : ScanContext)

/-- The packets of some arrivals, each with its delivery. -/
def arrived (coming : List (Reply Sent Packet)) (sendComplete : Bool) (arrivals : List Arrival) :
    List (Reply Sent Packet × Delivery) :=
  arrivals.filterMap fun a => coming[a.index]?.map fun r =>
    (r, ⟨⟨r.packet.data, r.packet.len, sendComplete, a.fakeEthHdr⟩, a.reads, a.flushReads, a.timems⟩)

/-- The probes of sender `i` to its current host, when it is about to send. -/
def ScanSys.sends (s : ScanSys) (i : Nat) (inputs : SendInputs) : Option (SendBuffer × List Sent) :=
  match s.work.senders[i]?, s.buffers[i]? with
  | some x, some b => if x.pc = .active then some (sendStreams context (UInt32.ofNat x.currentIp) inputs b) else none
  | _, _ => none

/-- The system when sender `i` has taken a step. The loop over the streams shares only the block of `xm_validate_gen`
with other threads, and no calls of it overlap, so that all its probes are sent in one step. -/
def ScanSys.afterSend (s : ScanSys) (work : WorkSys) (i : Nat) (inputs : SendInputs) : ScanSys :=
  match s.sends context i inputs with
  | none => { s with work := work }
  | some (b, ps) => { s with work := work, buffers := s.buffers.set i b, wire := s.wire.send ps }

def scanStep (s : ScanSys) : ScanAction → Option ScanSys
  | .tick time => (workStep context.work s.work (.tick time)).map fun work => { s with work := work }
  | .sender i fuel inputs =>
      (workStep context.work s.work (.sender i fuel)).map fun work => s.afterSend context work i inputs
  | .network e => (s.wire.event (IsAnswer context) e).map fun wire => { s with wire := wire }
  | .receiver arrivals =>
      let got := arrived s.wire.coming s.work.complete arrivals
      (workStep context.work s.work (.receiver (got.map Prod.snd))).map fun work =>
        { work := work
          buffers := s.buffers
          wire := s.wire.take (got.map Prod.fst)
          frames := s.frames ++ got.map fun p => p.2.toFrame }

/-- The start of a scan over the given shards: `random` is what `random()` returns to each sender. -/
def xmScanStart (shards : List XmShard) (recv : RecvSys) (clock : ℚ) (random : Nat → UInt32) : ScanSys where
  work := xmWorkStart shards recv clock
  buffers := shards.mapIdx fun i _ => sendBufferInit context (random i)
  wire := .empty
  frames := []

end

end Xmap.Scan
