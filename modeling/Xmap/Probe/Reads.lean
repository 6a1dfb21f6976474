import Xmap.Lib.Reads
import Xmap.Probe.Modules

/-!
# What the probe modules read of a packet

The checks and the stores of the modules again, with every read of the packet as a step of its own. They
return what the functions on the whole memory return.
-/

namespace Xmap.Probe

open Xmap.Lib

abbrev PacketReads := Reads UInt8

def read16 (a : Nat) : PacketReads UInt16 := do
  let bs ← Reads.block a 2
  return UInt16.ofNat (ofBE bs.reverse)

def read32 (a : Nat) : PacketReads UInt32 := do
  let bs ← Reads.block a 4
  return UInt32.ofNat (ofBE bs.reverse)

def readIpHl (ip : Nat) : PacketReads Nat := do
  let b ← Reads.cell ip
  return b.toNat % 16

/-! ## Checks -/

def readTcpPortsValid (g : ProbeContext) (ip : Nat) (len : UInt32) (validation : Validation) :
    PacketReads Bool := do
  let p ← Reads.cell (ip + 9)
  if p ≠ IPPROTO_TCP then return false
  else
    let hl ← readIpHl ip
    if 4 * hl + sizeofTcphdr > len.toNat then return false
    else
      let sport ← read16 (ip + 4 * hl)
      let dport ← read16 (ip + 4 * hl + 2)
      if ntohs sport ≠ g.targetPort then return false
      else
        return xmCheckDstPort (ntohs dport) (numPorts g.sourcePortFirst g.sourcePortLast)
          g.sourcePortFirst g.sourcePortLast (UInt32.ofInt g.packetStreams) validation

def readSynscanProbeValidatePacket (g : ProbeContext) (ip : Nat) (len sip : UInt32)
    (validation : Validation) : PacketReads (Option (UInt32 × Validation)) := do
  let portsValid ← readTcpPortsValid g ip len validation
  if !portsValid then return none
  else
    let hl ← readIpHl ip
    let flags ← Reads.cell (ip + 4 * hl + 13)
    let ack ← read32 (ip + 4 * hl + 8)
    if flags &&& TH_RST ≠ 0 then
      if htonl ack ≠ htonl (validation 0) ∧ htonl ack ≠ htonl (validation 0) + 1 then return none
      else return some (sip, validation)
    else if htonl ack ≠ htonl (validation 0) + 1 then return none
    else return some (sip, validation)

def readSynackscanProbeValidatePacket (g : ProbeContext) (ip : Nat) (len sip : UInt32)
    (validation : Validation) : PacketReads (Option (UInt32 × Validation)) := do
  let portsValid ← readTcpPortsValid g ip len validation
  if !portsValid then return none
  else
    let hl ← readIpHl ip
    let flags ← Reads.cell (ip + 4 * hl + 13)
    let ack ← read32 (ip + 4 * hl + 8)
    if flags &&& TH_RST ≠ 0 then
      if htonl ack ≠ htonl (validation 0) + 1 then
        let seq ← read32 (ip + 4 * hl + 4)
        if htonl seq ≠ htonl (validation 2) ∧ htonl seq ≠ htonl (validation 2) + 1 then return none
        else return some (sip, validation)
      else return some (sip, validation)
    else if htonl ack ≠ htonl (validation 0) + 1 then return none
    else return some (sip, validation)

def readIcmpValidatePacket (g : ProbeContext) (ip : Nat) (len sip : UInt32) (validation : Validation) :
    PacketReads (Option (UInt32 × Validation)) := do
  let p ← Reads.cell (ip + 9)
  if p ≠ IPPROTO_ICMP then return none
  else
    let hl ← readIpHl ip
    if 4 * hl + ICMP_SMALLEST_SIZE > len.toNat then return none
    else
      let icmp := ip + 4 * hl
      let icmpIdnum ← read16 (icmp + 4)
      let icmpSeqnum ← read16 (icmp + 6)
      let type ← Reads.cell icmp
      if type = ICMP_TIMXCEED ∨ type = ICMP_UNREACH then
        if 4 * hl + ICMP_TIMXCEED_UNREACH_HEADER_SIZE + sizeofIp > len.toNat then return none
        else
          let hlInner ← readIpHl (icmp + 8)
          if 4 * hl + ICMP_TIMXCEED_UNREACH_HEADER_SIZE + 4 * hlInner + 8 > len.toNat then return none
          else
            let icmpIdnum ← read16 (icmp + 8 + 4 * hl + 4)
            let icmpSeqnum ← read16 (icmp + 8 + 4 * hl + 6)
            let dst ← read32 (ip + 16)
            let dstInner ← read32 (icmp + 8 + 16)
            return icmpWordsValid icmpIdnum icmpSeqnum dst (g.validateGen dst dstInner)
      else return icmpWordsValid icmpIdnum icmpSeqnum sip validation

/-! ## Stores -/

def readXmProbeIpStore (pk : MsgpackPacker) (probeType : UInt8) (ip : Nat) : PacketReads (List UInt8) := do
  let src ← read32 (ip + 12)
  let dst ← read32 (ip + 16)
  let id ← read16 (ip + 4)
  let ttl ← Reads.cell (ip + 8)
  return xmStoreMapStart pk "" 3 ++ xmStoreWriteUint8 pk "type" probeType ++
    xmStoreMapStart pk "ip" 4 ++
    xmStoreWriteUint32 pk "srcIP" src ++ xmStoreWriteUint32 pk "dstIP" dst ++
    xmStoreWriteUint32 pk "ipid" (ntohs id).toUInt32 ++
    xmStoreWriteUint32 pk "ttl" ttl.toUInt32

def readTcpStore (pk : MsgpackPacker) (tcp : Nat) (success : UInt8) (msg : String) :
    PacketReads (List UInt8) := do
  let sport ← read16 tcp
  let dport ← read16 (tcp + 2)
  let seq ← read32 (tcp + 4)
  let ack ← read32 (tcp + 8)
  let win ← read16 (tcp + 14)
  return xmStoreMapStart pk "tcp" 7 ++ xmStoreWriteUint8 pk "success" success ++
    xmStoreWriteKv pk "msg" msg ++
    xmStoreWriteUint16 pk "sport" (ntohs sport) ++ xmStoreWriteUint16 pk "dport" (ntohs dport) ++
    xmStoreWriteUint32 pk "seqnum" (ntohl seq) ++ xmStoreWriteUint32 pk "acknum" (ntohl ack) ++
    xmStoreWriteUint32 pk "window" (ntohs win).toUInt32

/-- The `process_packet` of both modules, for what is stored of a reset and of another answer. -/
def readTcpProcessPacket (pk : MsgpackPacker) (pbuf : Nat) (reset answer : UInt8 × String) :
    PacketReads (List UInt8) := do
  let hl ← readIpHl (ipHeader pbuf)
  let tcp := ipHeader pbuf + 4 * hl
  let flags ← Reads.cell (tcp + 13)
  if flags &&& TH_RST ≠ 0 then readTcpStore pk tcp reset.1 reset.2
  else readTcpStore pk tcp answer.1 answer.2

def readIcmpStore (pk : MsgpackPacker) (name : String) (n : Nat) (icmp : Nat) :
    PacketReads (List UInt8) := do
  let type ← Reads.cell icmp
  let code ← Reads.cell (icmp + 1)
  let id ← read16 (icmp + 4)
  let seq ← read16 (icmp + 6)
  return xmStoreMapStart pk name n ++ xmStoreWriteUint8 pk "success" (icmpResult type).1 ++
    xmStoreWriteKv pk "msg" (icmpResult type).2 ++
    xmStoreWriteUint8 pk "type" type ++ xmStoreWriteUint8 pk "code" code ++
    xmStoreWriteUint32 pk "id" (ntohs id).toUInt32 ++ xmStoreWriteUint32 pk "seq" (ntohs seq).toUInt32

def readIcmpProbeProcessPacket (pk : MsgpackPacker) (pbuf : Nat) : PacketReads (List UInt8) := do
  let hl ← readIpHl (ipHeader pbuf)
  readIcmpStore pk "icmp" 6 (ipHeader pbuf + 4 * hl)

def readIcmpTimeProbeProcessPacket (pk : MsgpackPacker) (pbuf : Nat) : PacketReads (List UInt8) := do
  let hl ← readIpHl (ipHeader pbuf)
  let payload := ipHeader pbuf + 4 * hl + 8
  let fields ← readIcmpStore pk "icmpTime" 9 (ipHeader pbuf + 4 * hl)
  let sentTvSec ← read32 payload
  let sentTvUsec ← read32 (payload + 4)
  let dst ← read32 (payload + 8)
  return fields ++ xmStoreWriteUint64 pk "sentTimestampTS" sentTvSec.toUInt64 ++
    xmStoreWriteUint64 pk "sentTimestampUS" sentTvUsec.toUInt64 ++
    xmStoreWriteUint64 pk "dstRaw" dst.toUInt64

namespace ProbeModule

def readValidatePacket (g : ProbeContext) (ip : Nat) (len sip : UInt32) (validation : Validation) :
    ProbeModule → PacketReads (Option (UInt32 × Validation))
  | tcpSynscan => readSynscanProbeValidatePacket g ip len sip validation
  | tcpSynackscan => readSynackscanProbeValidatePacket g ip len sip validation
  | icmpEcho | icmpEchoTime => readIcmpValidatePacket g ip len sip validation

def readProcessPacket (pk : MsgpackPacker) (pbuf : Nat) : ProbeModule → PacketReads (List UInt8)
  | tcpSynscan => readTcpProcessPacket pk pbuf (0, "rst") (1, "synacn")
  | tcpSynackscan => readTcpProcessPacket pk pbuf (1, "rst") (1, "synack")
  | icmpEcho => readIcmpProbeProcessPacket pk pbuf
  | icmpEchoTime => readIcmpTimeProbeProcessPacket pk pbuf

end ProbeModule

end Xmap.Probe
