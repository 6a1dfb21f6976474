import Xmap.Probe.TcpScan

/-!
# Theorems on resets of SYN-ACK probes

The probe carries no acknowledgement number, so the reset that it provokes has sequence number 0. The check
compares it with a validation word.
-/

namespace Xmap.Probe

open Xmap.Lib

section
variable {g : ProbeContext} {m : Mem} {pbuf : Nat} {args : ProbeArgs}

/-! ## Fields of a probe -/

theorem tcpMakePacket_thDport :
    thDport (tcpMakePacket g m pbuf args) (tcpHeader pbuf) = thDport m (tcpHeader pbuf) := by
  simp (disch := omega) only [tcpMakePacket, thDport, tcpHeader, ipHeader, sizeofEtherHeader, sizeofIp,
    load16_store16_of_disjoint, load16_store32_of_disjoint, load16_store8_of_disjoint]

theorem tcpMakePacket_thAck :
    thAck (tcpMakePacket g m pbuf args) (tcpHeader pbuf) = thAck m (tcpHeader pbuf) := by
  simp (disch := omega) only [tcpMakePacket, thAck, tcpHeader, ipHeader, sizeofEtherHeader, sizeofIp,
    load32_store16_of_disjoint, load32_store32_of_disjoint, load32_store8_of_disjoint]

theorem tcpMakePacket_thSport :
    thSport (tcpMakePacket g m pbuf args) (tcpHeader pbuf) =
      htons (xmGetSrcPort (numPorts g.sourcePortFirst g.sourcePortLast) args.probeNum g.sourcePortFirst
        args.validation) := by
  simp (disch := omega) only [tcpMakePacket, thSport, tcpHeader, ipHeader, sizeofEtherHeader, sizeofIp,
    load16_store16_of_disjoint, load16_store32_of_disjoint, load16_store16]

theorem tcpThreadInit_thDport {flags dport : UInt16} {smac dmac : List UInt8} {random : UInt32} :
    thDport (tcpThreadInit flags m pbuf smac dmac dport random) (tcpHeader pbuf) = htons dport := by
  simp only [tcpThreadInit, xmMakeTcpHeader, thDport, load16_store16]

theorem tcpThreadInit_thAck {flags dport : UInt16} {smac dmac : List UInt8} {random : UInt32} :
    thAck (tcpThreadInit flags m pbuf smac dmac dport random) (tcpHeader pbuf) = 0 := by
  simp (disch := omega) only [tcpThreadInit, xmMakeTcpHeader, thAck, load32_store16_of_disjoint,
    load32_store8_of_disjoint, load32_store32]

/-- A probe that a module builds in the buffer of its thread, after any others. -/
def tcpProbe (g : ProbeContext) (m : Mem) (pbuf : Nat) (earlier : List ProbeArgs) (args : ProbeArgs) :
    Mem :=
  tcpMakePacket g (earlier.foldl (fun m a => tcpMakePacket g m pbuf a) m) pbuf args

theorem tcpProbe_thDport (earlier : List ProbeArgs) :
    thDport (tcpProbe g m pbuf earlier args) (tcpHeader pbuf) = thDport m (tcpHeader pbuf) := by
  rw [tcpProbe, tcpMakePacket_thDport]
  induction earlier generalizing m with
  | nil => rfl
  | cons a earlier ih => rw [List.foldl_cons, ih, tcpMakePacket_thDport]

theorem tcpProbe_thAck (earlier : List ProbeArgs) :
    thAck (tcpProbe g m pbuf earlier args) (tcpHeader pbuf) = thAck m (tcpHeader pbuf) := by
  rw [tcpProbe, tcpMakePacket_thAck]
  induction earlier generalizing m with
  | nil => rfl
  | cons a earlier ih => rw [List.foldl_cons, ih, tcpMakePacket_thAck]

end

/-! ## Resets -/

/-- The packet at `ip` is the reset of RFC 793 for the probe `p` in `pbuf`. -/
structure IsReset (p : Mem) (pbuf : Nat) (m : Mem) (ip : Nat) (len : UInt32) : Prop where
  protocol : ipP m ip = IPPROTO_TCP
  whole : 4 * ipHl m ip + sizeofTcphdr ≤ len.toNat
  src : ipSrc m ip = ipDst p (ipHeader pbuf)
  dst : ipDst m ip = ipSrc p (ipHeader pbuf)
  sport : thSport m (ip + 4 * ipHl m ip) = thDport p (tcpHeader pbuf)
  dport : thDport m (ip + 4 * ipHl m ip) = thSport p (tcpHeader pbuf)
  rst : thFlags m (ip + 4 * ipHl m ip) &&& TH_RST ≠ 0
  seq : thSeq m (ip + 4 * ipHl m ip) = thAck p (tcpHeader pbuf)
  ack : thAck m (ip + 4 * ipHl m ip) = 0

/-- The reset for a probe, with a header of 20 bytes. -/
def resetOf (p : Mem) (pbuf : Nat) : Mem :=
  let m := store8 (fun _ => 0) 0 0x45
  let m := store8 m 9 IPPROTO_TCP
  let m := store32 m 12 (ipDst p (ipHeader pbuf))
  let m := store32 m 16 (ipSrc p (ipHeader pbuf))
  let m := store16 m 20 (thDport p (tcpHeader pbuf))
  let m := store16 m 22 (thSport p (tcpHeader pbuf))
  let m := store32 m 24 (thAck p (tcpHeader pbuf))
  let m := store32 m 28 0
  store8 m 33 TH_RST

theorem resetOf_ipHl (p : Mem) (pbuf : Nat) : ipHl (resetOf p pbuf) 0 = 5 := by
  simp (disch := omega) [resetOf, ipHl, store8_of_ne, store16_of_disjoint, store32_of_disjoint]

theorem resetOf_isReset (p : Mem) (pbuf : Nat) : IsReset p pbuf (resetOf p pbuf) 0 40 where
  protocol := by
    simp (disch := omega) [resetOf, ipP, store8_of_ne, store16_of_disjoint, store32_of_disjoint]
  whole := by
    rw [resetOf_ipHl]
    decide
  src := by
    simp (disch := omega) [resetOf, ipSrc, load32_store8_of_disjoint, load32_store16_of_disjoint,
      load32_store32_of_disjoint]
  dst := by
    simp (disch := omega) [resetOf, ipDst, load32_store8_of_disjoint, load32_store16_of_disjoint,
      load32_store32_of_disjoint]
  sport := by
    rw [resetOf_ipHl]
    simp (disch := omega) [resetOf, thSport, load16_store8_of_disjoint, load16_store16_of_disjoint,
      load16_store32_of_disjoint]
  dport := by
    rw [resetOf_ipHl]
    simp (disch := omega) [resetOf, thDport, thSport, load16_store8_of_disjoint,
      load16_store32_of_disjoint]
  rst := by
    rw [resetOf_ipHl]
    simp [resetOf, thFlags, TH_RST]
  seq := by
    rw [resetOf_ipHl]
    simp (disch := omega) [resetOf, thSeq, load32_store8_of_disjoint, load32_store32_of_disjoint]
  ack := by
    rw [resetOf_ipHl]
    simp (disch := omega) [resetOf, thAck, load32_store8_of_disjoint]

/-! ## The check of a reset -/

/-- The port of the probe is not behind that of the last one, and a validation word happens to stand for
the number 0. -/
def ResetAccepted (g : ProbeContext) (args : ProbeArgs) : Prop :=
  let n := portCount g.sourcePortFirst g.sourcePortLast
  let v := (args.validation 1).toNat
  (v + args.probeNum.toNat) % 2 ^ 32 % n ≤ (v + (g.packetStreams.toNat - 1)) % 2 ^ 32 % n ∧
    (args.validation 0 = 0xFFFFFFFF ∨ args.validation 2 = 0 ∨ args.validation 2 = 0xFFFFFFFF)

theorem htonl_zero : htonl 0 = 0 := by decide

theorem htonl_eq_zero_iff {v : UInt32} : (0 : UInt32) = htonl v ↔ v = 0 := by
  rw [eq_comm, ← htonl_zero]
  exact ntohl_injective.eq_iff

theorem htonl_add_one_eq_zero_iff {v : UInt32} : (0 : UInt32) = htonl v + 1 ↔ v = 0xFFFFFFFF := by
  have hones : htonl 0xFFFFFFFF = 0xFFFFFFFF := by decide
  constructor
  · intro h
    have hv : htonl v = htonl 0xFFFFFFFF := by
      rw [hones]
      have := UInt32.toNat_inj.mpr h
      rw [UInt32.toNat_add] at this
      refine UInt32.toNat_inj.mp ?_
      have := (htonl v).toNat_lt
      simp at *
      omega
    exact ntohl_injective hv
  · rintro rfl
    decide

/-- The ports of a packet that answers probe `i` of `s` from and to the ports of the probe. -/
theorem tcpPortsValid_answer_iff {g : ProbeContext} (hrange : g.sourcePortFirst ≤ g.sourcePortLast)
    {s i : Nat} (hs : g.packetStreams = s) (hstreams : s < 2 ^ 31) (hi : i < s) {m : Mem} {ip : Nat}
    {len : UInt32} {validation : Validation} (hprotocol : ipP m ip = IPPROTO_TCP)
    (hwhole : 4 * ipHl m ip + sizeofTcphdr ≤ len.toNat)
    (hsport : ntohs (thSport m (ip + 4 * ipHl m ip)) = g.targetPort)
    (hdport : ntohs (thDport m (ip + 4 * ipHl m ip)) =
      xmGetSrcPort (numPorts g.sourcePortFirst g.sourcePortLast) i g.sourcePortFirst validation) :
    tcpPortsValid g m ip len validation = true ↔
      ((validation 1).toNat + i) % 2 ^ 32 % portCount g.sourcePortFirst g.sourcePortLast ≤
        ((validation 1).toNat + (s - 1)) % 2 ^ 32 % portCount g.sourcePortFirst g.sourcePortLast := by
  have hstr : UInt32.ofInt g.packetStreams = UInt32.ofNat s := by
    refine UInt32.toNat_inj.mp ?_
    rw [hs, ofInt_toNat (by omega), UInt32.toNat_ofNat', Nat.mod_eq_of_lt (by omega)]
  have hle : g.sourcePortFirst.toNat ≤ g.sourcePortLast.toNat := UInt16.le_iff_toNat_le.mp hrange
  have hport : (xmGetSrcPort (numPorts g.sourcePortFirst g.sourcePortLast) i g.sourcePortFirst
      validation).toNat = g.sourcePortFirst.toNat + ((validation 1).toNat + i) % 2 ^ 32 %
        portCount g.sourcePortFirst g.sourcePortLast := xmGetSrcPort_eq hrange (by omega)
  have hmod := Nat.mod_lt (((validation 1).toNat + i) % 2 ^ 32)
    (show 0 < portCount g.sourcePortFirst g.sourcePortLast from Nat.succ_pos _)
  have hcount : portCount g.sourcePortFirst g.sourcePortLast =
      g.sourcePortLast.toNat - g.sourcePortFirst.toNat + 1 := rfl
  simp only [tcpPortsValid, hprotocol, ne_eq, not_true, if_false, Nat.not_lt.mpr hwhole, hsport,
    hdport, hstr]
  rw [xmCheckDstPort_iff_le hrange (by omega) (by omega), hport, Nat.add_sub_cancel_left]
  constructor
  · exact fun h => h.2.2
  · exact fun h => ⟨UInt16.le_iff_toNat_le.mpr (by omega), UInt16.le_iff_toNat_le.mpr (by omega), h⟩

/-- A packet with sequence and acknowledgement number 0 that is a reset. -/
theorem synackscanProbeValidatePacket_zero_iff {g : ProbeContext} {m : Mem} {ip : Nat} {len : UInt32}
    {validation : Validation} (hrst : thFlags m (ip + 4 * ipHl m ip) &&& TH_RST ≠ 0)
    (hseq : thSeq m (ip + 4 * ipHl m ip) = 0) (hack : thAck m (ip + 4 * ipHl m ip) = 0)
    (sip : UInt32) :
    (synackscanProbeValidatePacket g m ip len sip validation).isSome = true ↔
      tcpPortsValid g m ip len validation = true ∧
        (validation 0 = 0xFFFFFFFF ∨ validation 2 = 0 ∨ validation 2 = 0xFFFFFFFF) := by
  rw [← htonl_eq_zero_iff, ← htonl_add_one_eq_zero_iff, ← htonl_add_one_eq_zero_iff]
  simp only [synackscanProbeValidatePacket, hseq, hack, htonl_zero, if_pos hrst]
  cases tcpPortsValid g m ip len validation with
  | false => simp
  | true =>
    simp only [Bool.not_true, Bool.false_eq_true, if_false, true_and]
    split
    · next h => simp [h]
    · next h =>
      simp only [Option.isSome_some, true_iff]
      by_contra hno
      simp only [not_or] at hno
      exact h hno

/-- The reset that a probe provokes is accepted if and only if a validation word stands for 0 and the test
of the ports holds. -/
theorem synackscanProbeValidatePacket_reset_iff (g : ProbeContext)
    (hrange : g.sourcePortFirst ≤ g.sourcePortLast) (hstreams : g.packetStreams < 2 ^ 31)
    (buf : Mem) (pbuf : Nat) (smac dmac : List UInt8) (random : UInt32) (earlier : List ProbeArgs)
    (args : ProbeArgs) (hnonneg : 0 ≤ args.probeNum) (hnum : args.probeNum < g.packetStreams)
    {m : Mem} {ip : Nat} {len : UInt32}
    (hreset : IsReset (tcpProbe g (synackscanProbeThreadInit buf pbuf smac dmac g.targetPort random) pbuf
      earlier args) pbuf m ip len) (sip : UInt32) :
    (synackscanProbeValidatePacket g m ip len sip args.validation).isSome = true ↔
      ResetAccepted g args := by
  obtain ⟨i, hi⟩ := Int.eq_ofNat_of_zero_le hnonneg
  obtain ⟨s, hs⟩ := Int.eq_ofNat_of_zero_le (show 0 ≤ g.packetStreams by omega)
  have hseq : thSeq m (ip + 4 * ipHl m ip) = 0 := by
    rw [hreset.seq, tcpProbe_thAck, synackscanProbeThreadInit, tcpThreadInit_thAck]
  have hsport : ntohs (thSport m (ip + 4 * ipHl m ip)) = g.targetPort := by
    rw [hreset.sport, tcpProbe_thDport, synackscanProbeThreadInit, tcpThreadInit_thDport, htons,
      ntohs_ntohs]
  have hdport : ntohs (thDport m (ip + 4 * ipHl m ip)) =
      xmGetSrcPort (numPorts g.sourcePortFirst g.sourcePortLast) i g.sourcePortFirst
        args.validation := by
    rw [hreset.dport, tcpProbe, tcpMakePacket_thSport, htons, ntohs_ntohs, hi]
  rw [synackscanProbeValidatePacket_zero_iff hreset.rst hseq hreset.ack,
    tcpPortsValid_answer_iff hrange hs (by omega) (by omega) hreset.protocol hreset.whole hsport hdport,
    ResetAccepted, hi, hs]
  rfl

/-- A scan of port 80 from port 1000. -/
def onePort : ProbeContext := ⟨80, 1000, 1000, 1, fun _ _ _ => 0⟩

/-- The first probe, for given validation words. -/
def firstArgs (validation : Validation) : ProbeArgs := ⟨0x0100000A, 0x0200000A, 64, validation, 0⟩

def firstProbe (validation : Validation) : Mem :=
  tcpProbe onePort (synackscanProbeThreadInit (fun _ => 0) 0 [] [] 80 7) 0 [] (firstArgs validation)

theorem synackscanProbeValidatePacket_reset_iff_first :
    (synackscanProbeValidatePacket onePort (resetOf (firstProbe fun _ => 0) 0) 0 40 0x0200000A
      fun _ => 0).isSome = true ↔ ResetAccepted onePort (firstArgs fun _ => 0) :=
  synackscanProbeValidatePacket_reset_iff onePort (by decide) (by decide) (fun _ => 0) 0 [] [] 7 []
    (firstArgs fun _ => 0) (by decide) (by decide) (resetOf_isReset _ 0) 0x0200000A

/-- With words that are not 0, the reset of the probe is rejected. -/
theorem synackscanProbeValidatePacket_reset_rejected :
    IsReset (firstProbe fun _ => 1) 0 (resetOf (firstProbe fun _ => 1) 0) 0 40 ∧
      (synackscanProbeValidatePacket onePort (resetOf (firstProbe fun _ => 1) 0) 0 40 0x0200000A
        fun _ => 1).isSome = false :=
  ⟨resetOf_isReset _ 0, by decide +kernel⟩

end Xmap.Probe
