import Xmap.Probe.Modules
import Xmap.Task.Work

/-!
# The probes of a host (`xm_send_task`)

For each host a sender builds one probe for each stream in its buffer, and gives it to the driver until an attempt
succeeds.
-/

namespace Xmap.Scan

open Xmap.Lib Xmap.Probe Xmap.Task

/-- The fields of `xm_context_t` that the senders and the receiver read. -/
structure ScanContext where
  probe : ProbeModule
  gcontext : ProbeContext
  sourceIpAddresses : List UInt32
  numberSourceIps_pos : 0 < sourceIpAddresses.length
  srcipOffset : UInt32
  probeTtl : UInt8
  numRetries : Int
  sendIpPkts : Bool
  hwMac : List UInt8
  gwMac : List UInt8
  maxRuntime : UInt32
  listOfIps : Option Pbm
  maxResults : UInt32
  cooldownSecs : Int

namespace ScanContext

variable (context : ScanContext)

/-- The receiver's part, with what `_context_set` and `_context_init` set for every scan. -/
def recv : RecvContext where
  probe := context.probe.probe context.gcontext
  validateGen := context.gcontext.validateGen
  packer := msgpackPacker
  dataLinkSize := sizeofEtherHeader
  sendIpPkts := context.sendIpPkts
  filterDuplicates := true
  maxResults := context.maxResults
  cooldownSecs := context.cooldownSecs

def work : WorkContext := ⟨⟨context.maxRuntime, context.listOfIps⟩, context.recv⟩

/-- The arguments of `probe_thread_init`. -/
def initArgs (random : UInt32) : InitArgs := ⟨context.hwMac, context.gwMac, context.gcontext.targetPort, random⟩

end ScanContext

/-- What `send` is given: a frame, or an IP packet. The arguments of `make_packet` are kept beside it. -/
structure Sent where
  contents : Mem
  length : Nat
  idx : Nat
  args : PacketArgs

/-- The buffer of a sender, with the counts of its loop. -/
structure SendBuffer where
  buf : Mem
  idx : Nat
  failures : Nat

/-- What is outside the sender while it sends to a host: whether attempt `j` for stream `i` succeeds, and the times of
`gettimeofday`. -/
structure SendInputs where
  succeeds : Nat → Nat → Bool
  tvSec : Nat → UInt32
  tvUsec : Nat → UInt32

section
variable (context : ScanContext)

/-- `probe_thread_init` in a buffer of zeros. -/
def sendBufferInit (random : UInt32) : SendBuffer :=
  ⟨context.probe.threadInit (fun _ => 0) 0 (context.initArgs random), 0, 0⟩

def getSrcIp (dst : UInt32) (localOffset : Nat) : UInt32 :=
  if context.sourceIpAddresses.length = 1 then context.sourceIpAddresses.get ⟨0, context.numberSourceIps_pos⟩
  else
    context.sourceIpAddresses.get ⟨(ntohl dst + context.srcipOffset + UInt32.ofNat localOffset).toNat %
      context.sourceIpAddresses.length, Nat.mod_lt _ context.numberSourceIps_pos⟩

/-- `packet_length` of the probe modules. -/
def packetLength : ProbeModule → Nat
  | .tcpSynscan | .tcpSynackscan => 54
  | .icmpEcho | .icmpEchoTime => 62

/-- The bytes of the buffer that are not sent. -/
def sendSkip : Nat := if context.sendIpPkts then sizeofEtherHeader else 0

/-- The arguments of `probe_make_packet` for stream `i`. -/
def streamArgs (dst : UInt32) (inputs : SendInputs) (i : Nat) : PacketArgs where
  sip := getSrcIp context dst i
  dip := dst
  ttl := context.probeTtl
  validation := context.gcontext.validateGen (getSrcIp context dst i) dst
  probeNum := i
  tvSec := inputs.tvSec i
  tvUsec := inputs.tvUsec i

/-- The loop over the attempts. -/
def anySendsSuccessful (inputs : SendInputs) (i : Nat) : Bool :=
  (List.range (context.numRetries + 1).toNat).any (inputs.succeeds i)

/-- A round of the loop over the streams. -/
def sendStream (dst : UInt32) (inputs : SendInputs) (s : SendBuffer × List Sent) (i : Nat) : SendBuffer × List Sent :=
  let args := streamArgs context dst inputs i
  let buf := context.probe.makePacket context.gcontext s.1.buf 0 args
  let sent : Sent :=
    ⟨fun a => buf (sendSkip context + a), packetLength context.probe - sendSkip context, s.1.idx, args⟩
  if anySendsSuccessful context inputs i then (⟨buf, (s.1.idx + 1) % 2 ^ 8, s.1.failures⟩, s.2 ++ [sent])
  else (⟨buf, (s.1.idx + 1) % 2 ^ 8, (s.1.failures + 1) % 2 ^ 32⟩, s.2)

/-- The probes that are sent to a host. -/
def sendStreams (dst : UInt32) (inputs : SendInputs) (b : SendBuffer) : SendBuffer × List Sent :=
  (List.range context.gcontext.packetStreams.toNat).foldl (sendStream context dst inputs) (b, [])

end

end Xmap.Scan
