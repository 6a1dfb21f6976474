import Xmap.Probe.TcpScan

/-!
# ICMP probes (`xm_probe_icmp`, `xm_probe_icmp_time`)

The two modules differ in the payload of the probe and in what they store. An error message is valid if it
quotes a probe.
-/

namespace Xmap.Probe

open Xmap.Lib

def ICMP_ECHOREPLY : UInt8 := 0
def ICMP_UNREACH : UInt8 := 3
def ICMP_SOURCEQUENCH : UInt8 := 4
def ICMP_REDIRECT : UInt8 := 5
def ICMP_TIMXCEED : UInt8 := 11

def ICMP_SMALLEST_SIZE : Nat := 5
def ICMP_TIMXCEED_UNREACH_HEADER_SIZE : Nat := 8

/-! ## Probes -/

def icmpHeader (pbuf : Nat) : Nat := ipHeader pbuf + sizeofIp

/-- The `thread_init` of both modules. -/
def icmpThreadInit (m : Mem) (pbuf : Nat) (smac dmac : List UInt8) : Mem :=
  let m := m.write pbuf (List.replicate MAX_PACKET_SIZE 0)
  let m := xmMakeEthHeader m pbuf smac dmac
  let m := xmMakeIpHeader m (ipHeader pbuf) IPPROTO_ICMP
    (htons (UInt16.ofNat (sizeofIp + sizeofIcmp - 8)))
  xmMakeIcmpHeader m (icmpHeader pbuf)

def icmpProbeThreadInit : Mem → Nat → List UInt8 → List UInt8 → Mem := icmpThreadInit

def icmpTimeProbeThreadInit : Mem → Nat → List UInt8 → List UInt8 → Mem := icmpThreadInit

/-- The arguments of `make_packet`, and the time that `gettimeofday` returns. -/
structure IcmpArgs where
  sip : UInt32
  dip : UInt32
  ttl : UInt8
  validation : Validation
  tvSec : UInt32
  tvUsec : UInt32

/-- Addresses, identifier and sequence number, which both modules write. -/
def icmpWords (m : Mem) (pbuf : Nat) (args : IcmpArgs) : Mem :=
  let ip := ipHeader pbuf
  let icmp := icmpHeader pbuf
  let m := store32 m (ip + 12) args.sip
  let m := store32 m (ip + 16) args.dip
  let m := store8 m (ip + 8) args.ttl
  let m := store16 m (icmp + 4) (args.validation 1 &&& 0xFFFF).toUInt16
  store16 m (icmp + 6) (args.validation 2 &&& 0xFFFF).toUInt16

def icmpChecksums (m : Mem) (pbuf : Nat) : Mem :=
  let ip := ipHeader pbuf
  let icmp := icmpHeader pbuf
  let m := store16 m (icmp + 2) 0
  let m := store16 m (icmp + 2) (xmIcmpChecksum m icmp)
  let m := store16 m (ip + 10) 0
  store16 m (ip + 10) (xmIpChecksum m ip)

def icmpProbeMakePacket (m : Mem) (pbuf : Nat) (args : IcmpArgs) : Mem :=
  icmpChecksums (icmpWords m pbuf args) pbuf

def icmpTimeProbeMakePacket (m : Mem) (pbuf : Nat) (args : IcmpArgs) : Mem :=
  let payload := icmpHeader pbuf + 8
  let m := icmpWords m pbuf args
  let m := store32 m payload args.tvSec
  let m := store32 m (payload + 4) args.tvUsec
  let m := store32 m (payload + 8) args.dip
  icmpChecksums m pbuf

/-! ## Answers -/

def icmpOfPacket (m : Mem) (ip : Nat) : Nat := ip + 4 * ipHl m ip

/-- The header that an error message quotes. -/
def ipInner (m : Mem) (ip : Nat) : Nat := icmpOfPacket m ip + 8

/-- `icmp_inner`, which stands behind the length of the outer header. -/
def icmpInner (m : Mem) (ip : Nat) : Nat := ipInner m ip + 4 * ipHl m ip

def isIcmpError (m : Mem) (ip : Nat) : Prop :=
  icmpType m (icmpOfPacket m ip) = ICMP_TIMXCEED ∨ icmpType m (icmpOfPacket m ip) = ICMP_UNREACH

instance (m : Mem) (ip : Nat) : Decidable (isIcmpError m ip) := inferInstanceAs (Decidable (_ ∨ _))

/-- The checks of the identifier and the sequence number. -/
def icmpWordsValid (icmpIdnum icmpSeqnum : UInt16) (sip : UInt32) (validation : Validation) :
    Option (UInt32 × Validation) :=
  if icmpIdnum.toUInt32 ≠ validation 1 &&& 0xFFFF then none
  else if icmpSeqnum.toUInt32 ≠ validation 2 &&& 0xFFFF then none
  else some (sip, validation)

/-- The `validate_packet` of both modules. -/
def icmpValidatePacket (g : ProbeContext) (m : Mem) (ip : Nat) (len sip : UInt32)
    (validation : Validation) : Option (UInt32 × Validation) :=
  if ipP m ip ≠ IPPROTO_ICMP then none
  else if 4 * ipHl m ip + ICMP_SMALLEST_SIZE > len.toNat then none
  else if isIcmpError m ip then
    if 4 * ipHl m ip + ICMP_TIMXCEED_UNREACH_HEADER_SIZE + sizeofIp > len.toNat then none
    else if 4 * ipHl m ip + ICMP_TIMXCEED_UNREACH_HEADER_SIZE + 4 * ipHl m (ipInner m ip) + 8 >
        len.toNat then none
    else icmpWordsValid (icmpId m (icmpInner m ip)) (icmpSeq m (icmpInner m ip)) (ipDst m ip)
      (g.validateGen (ipDst m ip) (ipDst m (ipInner m ip)))
  else icmpWordsValid (icmpId m (icmpOfPacket m ip)) (icmpSeq m (icmpOfPacket m ip)) sip validation

def icmpProbeValidatePacket : ProbeContext → Mem → Nat → UInt32 → UInt32 → Validation →
    Option (UInt32 × Validation) := icmpValidatePacket

def icmpTimeProbeValidatePacket : ProbeContext → Mem → Nat → UInt32 → UInt32 → Validation →
    Option (UInt32 × Validation) := icmpValidatePacket

/-! ## What is stored -/

/-- The success and the message for a type. -/
def icmpResult (type : UInt8) : UInt8 × String :=
  if type = ICMP_ECHOREPLY then (1, "echoreply")
  else if type = ICMP_UNREACH then (0, "unreach")
  else if type = ICMP_SOURCEQUENCH then (0, "sourcequench")
  else if type = ICMP_REDIRECT then (0, "redirect")
  else if type = ICMP_TIMXCEED then (0, "timxceed")
  else (0, "other")

/-- The fields that both modules store, under a name and with a number of fields. -/
def icmpStore (pk : MsgpackPacker) (name : String) (n : Nat) (m : Mem) (icmp : Nat) : List UInt8 :=
  let result := icmpResult (icmpType m icmp)
  xmStoreMapStart pk name n ++ xmStoreWriteUint8 pk "success" result.1 ++
    xmStoreWriteKv pk "msg" result.2 ++
    xmStoreWriteUint8 pk "type" (icmpType m icmp) ++ xmStoreWriteUint8 pk "code" (icmpCode m icmp) ++
    xmStoreWriteUint32 pk "id" (ntohs (icmpId m icmp)).toUInt32 ++
    xmStoreWriteUint32 pk "seq" (ntohs (icmpSeq m icmp)).toUInt32

def icmpProbeProcessPacket (pk : MsgpackPacker) (m : Mem) (pbuf : Nat) (_ : UInt32)
    (_ : Validation) : List UInt8 :=
  icmpStore pk "icmp" 6 m (icmpOfPacket m (ipHeader pbuf))

def icmpTimeProbeProcessPacket (pk : MsgpackPacker) (m : Mem) (pbuf : Nat) (_ : UInt32)
    (_ : Validation) : List UInt8 :=
  let icmp := icmpOfPacket m (ipHeader pbuf)
  let payload := icmp + 8
  icmpStore pk "icmpTime" 9 m icmp ++
    xmStoreWriteUint64 pk "sentTimestampTS" (load32 m payload).toUInt64 ++
    xmStoreWriteUint64 pk "sentTimestampUS" (load32 m (payload + 4)).toUInt64 ++
    xmStoreWriteUint64 pk "dstRaw" (load32 m (payload + 8)).toUInt64

def probeIcmpEcho (g : ProbeContext) : XmProbe where
  probeType := PROBE_ICMP_ECHO
  probeValidatePacket := icmpProbeValidatePacket g
  probeProcessPacket := icmpProbeProcessPacket

def probeIcmpEchoTime (g : ProbeContext) : XmProbe where
  probeType := PROBE_ICMP_ECHO_TIME
  probeValidatePacket := icmpTimeProbeValidatePacket g
  probeProcessPacket := icmpTimeProbeProcessPacket

/-- The two modules. -/
inductive IcmpModule where
  | echo
  | echoTime
deriving DecidableEq, Repr

namespace IcmpModule

def makePacket : IcmpModule → Mem → Nat → IcmpArgs → Mem
  | echo => icmpProbeMakePacket
  | echoTime => icmpTimeProbeMakePacket

def threadInit : IcmpModule → Mem → Nat → List UInt8 → List UInt8 → Mem
  | echo => icmpProbeThreadInit
  | echoTime => icmpTimeProbeThreadInit

def probe : IcmpModule → ProbeContext → XmProbe
  | echo => probeIcmpEcho
  | echoTime => probeIcmpEchoTime

theorem probe_validatePacket (k : IcmpModule) (g : ProbeContext) :
    (k.probe g).probeValidatePacket = icmpValidatePacket g := by
  cases k <;> rfl

end IcmpModule

end Xmap.Probe
