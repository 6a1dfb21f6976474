import Xmap.Probe.Reads
import Xmap.Task.RecvTask

/-!
# What the receiver reads of a packet

`_recv_packet_handle` again, with every read of the packet as a step of its own and with the offsets of
`fake_eth_hdr` that it writes.
-/

namespace Xmap.Task

open Xmap.Lib Xmap.Probe Xmap.Shm

def sizeofFakeEthHdr : Nat := 65535

/-- What a call leaves and returns, and what it writes to `fake_eth_hdr`. -/
structure Handled where
  task : XmRecvTask
  record : Option ShmRecord
  written : List Nat

/-- The counters after a valid packet with these fragment bits. -/
def countAnswer (off : UInt16) (sendComplete isRepeat : Bool) (xrecv : XRecv) : XRecv :=
  { xrecv with
    validationPassed := xrecv.validationPassed + 1
    ipFragments := if off &&& IP_MF ≠ 0 then xrecv.ipFragments + 1 else xrecv.ipFragments
    successTotal := xrecv.successTotal + 1
    successUnique := if isRepeat then xrecv.successUnique else xrecv.successUnique + 1
    cooldownTotal := if sendComplete then xrecv.cooldownTotal + 1 else xrecv.cooldownTotal
    cooldownUnique := if sendComplete && !isRepeat then xrecv.cooldownUnique + 1
      else xrecv.cooldownUnique }

section
variable (context : RecvContext) (k : ProbeModule)

/-- The length that the checks get. -/
def checkedLength (f : Frame) : UInt32 :=
  UInt32.ofNat (f.pktLen - if context.sendIpPkts then 0 else sizeofEtherHeader)

/-- The record and the offsets written. The fields are read from the packet or from its copy. -/
def readPackedRecord (f : Frame) : PacketReads (ShmRecord × List Nat) :=
  if context.sendIpPkts then do
    let pktLen := min f.pktLen sizeofFakeEthHdr
    let bytes ← Reads.block context.dataLinkSize pktLen
    let eth := f.fakeEthHdr.write sizeofEtherHeader bytes
    let ipFields ← readXmProbeIpStore context.packer context.probe.probeType context.dataLinkSize
    return ({ type := context.probe.probeType,
              data := ipFields ++ (k.readProcessPacket context.packer 0).run eth },
      List.range' sizeofEtherHeader pktLen)
  else do
    let ipFields ← readXmProbeIpStore context.packer context.probe.probeType context.dataLinkSize
    let fields ← k.readProcessPacket context.packer 0
    return ({ type := context.probe.probeType, data := ipFields ++ fields }, [])

/-- The handling of a packet that has passed validation with this source address. -/
def readAnswer (task : XmRecvTask) (f : Frame) (srcIp : UInt32) : PacketReads Handled := do
  let isRepeat := xmPbmCheck task.seen (ntohl srcIp)
  let off ← read16 (context.dataLinkSize + 6)
  let xrecv := countAnswer off f.sendComplete isRepeat task.xrecv
  let seen := if isRepeat then task.seen else xmPbmSet task.seen (ntohl srcIp)
  if isRepeat && context.filterDuplicates then return ⟨⟨seen, xrecv⟩, none, []⟩
  else
    let packed ← readPackedRecord context k f
    return ⟨⟨seen, { xrecv with filterSuccess := xrecv.filterSuccess + 1 }⟩, some packed.1, packed.2⟩

/-- The check of the probe module, on a packet that holds an IP header. -/
def readValidation (g : ProbeContext) (f : Frame) : PacketReads (Option (UInt32 × Validation)) := do
  let srcIp ← read32 (context.dataLinkSize + 12)
  let dstIp ← read32 (context.dataLinkSize + 16)
  k.readValidatePacket g context.dataLinkSize (checkedLength context f) srcIp
    (context.validateGen dstIp srcIp)

def readRecvPacketHandle (g : ProbeContext) (task : XmRecvTask) (f : Frame) : PacketReads Handled :=
  if f.pktLen < sizeofIp + context.dataLinkSize then return ⟨task, none, []⟩
  else do
    let answer ← readValidation context k g f
    match answer with
    | none =>
      return ⟨{ task with xrecv := { task.xrecv with
        validationFailed := task.xrecv.validationFailed + 1 } }, none, []⟩
    | some (srcIp, _) => readAnswer context k task f srcIp

end

end Xmap.Task
