import Xmap.Probe.Headers
import Xmap.Probe.Ports

/-!
# TCP probes (`xm_probe_tcpsynscan`, `xm_probe_tcpsynackscan`)

The two modules differ in the flags of the probe, in the check of an answer that is a reset and in what
they store for it.
-/

namespace Xmap.Probe

open Xmap.Lib

/-- The fields of `gcontext` that the modules read. -/
structure ProbeContext where
  targetPort : UInt16
  sourcePortFirst : UInt16
  sourcePortLast : UInt16
  packetStreams : Int
  validateGen : UInt32 → UInt32 → Validation

/-! ## Probes in a buffer -/

/-- The addresses of the headers in a buffer. -/
def ipHeader (pbuf : Nat) : Nat := pbuf + sizeofEtherHeader
def tcpHeader (pbuf : Nat) : Nat := ipHeader pbuf + sizeofIp

/-- The `thread_init` of both modules, for the flags of the probe. -/
def tcpThreadInit (flags : UInt16) (m : Mem) (pbuf : Nat) (smac dmac : List UInt8) (dport : UInt16)
    (random : UInt32) : Mem :=
  let m := m.write pbuf (List.replicate MAX_PACKET_SIZE 0)
  let m := xmMakeEthHeader m pbuf smac dmac
  let m := xmMakeIpHeader m (ipHeader pbuf) IPPROTO_TCP (htons (UInt16.ofNat (sizeofIp + sizeofTcphdr)))
  xmMakeTcpHeader m (tcpHeader pbuf) dport flags random

def synscanProbeThreadInit : Mem → Nat → List UInt8 → List UInt8 → UInt16 → UInt32 → Mem :=
  tcpThreadInit TH_SYN.toUInt16

def synackscanProbeThreadInit : Mem → Nat → List UInt8 → List UInt8 → UInt16 → UInt32 → Mem :=
  tcpThreadInit (TH_SYN ||| TH_ACK).toUInt16

/-- The arguments of `make_packet` that the modules read. -/
structure ProbeArgs where
  sip : UInt32
  dip : UInt32
  ttl : UInt8
  validation : Validation
  probeNum : Int

/-- The `make_packet` of both modules. -/
def tcpMakePacket (g : ProbeContext) (m : Mem) (pbuf : Nat) (args : ProbeArgs) : Mem :=
  let ip := ipHeader pbuf
  let tcp := tcpHeader pbuf
  let tcpSeq := args.validation 0
  let m := store32 m (ip + 12) args.sip
  let m := store32 m (ip + 16) args.dip
  let m := store8 m (ip + 8) args.ttl
  let m := store16 m tcp (htons (xmGetSrcPort (numPorts g.sourcePortFirst g.sourcePortLast)
    args.probeNum g.sourcePortFirst args.validation))
  let m := store32 m (tcp + 4) tcpSeq
  let m := store16 m (tcp + 16) 0
  let m := store16 m (tcp + 16) (xmTcpChecksum (UInt16.ofNat sizeofTcphdr) (ipSrc m ip) (ipDst m ip) m tcp)
  let m := store16 m (ip + 10) 0
  store16 m (ip + 10) (xmIpChecksum m ip)

def synscanProbeMakePacket : ProbeContext → Mem → Nat → ProbeArgs → Mem := tcpMakePacket

def synackscanProbeMakePacket : ProbeContext → Mem → Nat → ProbeArgs → Mem := tcpMakePacket

/-! ## Answers -/

/-- The checks of both modules, up to those of the sequence numbers. -/
def tcpPortsValid (g : ProbeContext) (m : Mem) (ip : Nat) (len : UInt32) (validation : Validation) :
    Bool :=
  if ipP m ip ≠ IPPROTO_TCP then false
  else if 4 * ipHl m ip + sizeofTcphdr > len.toNat then false
  else
    let tcp := ip + 4 * ipHl m ip
    if ntohs (thSport m tcp) ≠ g.targetPort then false
    else xmCheckDstPort (ntohs (thDport m tcp)) (numPorts g.sourcePortFirst g.sourcePortLast)
      g.sourcePortFirst g.sourcePortLast (UInt32.ofInt g.packetStreams) validation

def synscanProbeValidatePacket (g : ProbeContext) (m : Mem) (ip : Nat) (len sip : UInt32)
    (validation : Validation) : Option (UInt32 × Validation) :=
  let tcp := ip + 4 * ipHl m ip
  if !tcpPortsValid g m ip len validation then none
  else if thFlags m tcp &&& TH_RST ≠ 0 then
    if htonl (thAck m tcp) ≠ htonl (validation 0) ∧
        htonl (thAck m tcp) ≠ htonl (validation 0) + 1 then none
    else some (sip, validation)
  else if htonl (thAck m tcp) ≠ htonl (validation 0) + 1 then none
  else some (sip, validation)

def synackscanProbeValidatePacket (g : ProbeContext) (m : Mem) (ip : Nat) (len sip : UInt32)
    (validation : Validation) : Option (UInt32 × Validation) :=
  let tcp := ip + 4 * ipHl m ip
  if !tcpPortsValid g m ip len validation then none
  else if thFlags m tcp &&& TH_RST ≠ 0 then
    if htonl (thAck m tcp) ≠ htonl (validation 0) + 1 ∧ htonl (thSeq m tcp) ≠ htonl (validation 2) ∧
        htonl (thSeq m tcp) ≠ htonl (validation 2) + 1 then none
    else some (sip, validation)
  else if htonl (thAck m tcp) ≠ htonl (validation 0) + 1 then none
  else some (sip, validation)

/-! ## What is stored -/

/-- The fields that both modules store. -/
def tcpStore (pk : MsgpackPacker) (m : Mem) (tcp : Nat) (success : UInt8) (msg : String) :
    List UInt8 :=
  xmStoreMapStart pk "tcp" 7 ++ xmStoreWriteUint8 pk "success" success ++
    xmStoreWriteKv pk "msg" msg ++
    xmStoreWriteUint16 pk "sport" (ntohs (thSport m tcp)) ++
    xmStoreWriteUint16 pk "dport" (ntohs (thDport m tcp)) ++
    xmStoreWriteUint32 pk "seqnum" (ntohl (thSeq m tcp)) ++
    xmStoreWriteUint32 pk "acknum" (ntohl (thAck m tcp)) ++
    xmStoreWriteUint32 pk "window" (ntohs (thWin m tcp)).toUInt32

def tcpOfPacket (m : Mem) (pbuf : Nat) : Nat := ipHeader pbuf + 4 * ipHl m (ipHeader pbuf)

def synscanProbeProcessPacket (pk : MsgpackPacker) (m : Mem) (pbuf : Nat) (_ : UInt32)
    (_ : Validation) : List UInt8 :=
  let tcp := tcpOfPacket m pbuf
  if thFlags m tcp &&& TH_RST ≠ 0 then tcpStore pk m tcp 0 "rst" else tcpStore pk m tcp 1 "synacn"

def synackscanProbeProcessPacket (pk : MsgpackPacker) (m : Mem) (pbuf : Nat) (_ : UInt32)
    (_ : Validation) : List UInt8 :=
  let tcp := tcpOfPacket m pbuf
  if thFlags m tcp &&& TH_RST ≠ 0 then tcpStore pk m tcp 1 "rst" else tcpStore pk m tcp 1 "synack"

def probeTcpSynscan (g : ProbeContext) : XmProbe where
  probeType := PROBE_TCP_SYN
  probeValidatePacket := synscanProbeValidatePacket g
  probeProcessPacket := synscanProbeProcessPacket

def probeTcpSynackscan (g : ProbeContext) : XmProbe where
  probeType := PROBE_TCP_SYN
  probeValidatePacket := synackscanProbeValidatePacket g
  probeProcessPacket := synackscanProbeProcessPacket

end Xmap.Probe
