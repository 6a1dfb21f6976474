import Xmap.Scan.Lemmas.Probes

/-!
# The verdict on answers

The receiver finds the validation words of the probe again, because the addresses of the answer are those of the probe
the other way round.
-/

namespace Xmap.Scan

open Xmap.Lib Xmap.Probe Xmap.Task

/-! ## The checks of the modules -/

section
variable {g : ProbeContext} {m : Mem} {ip : Nat} {len sip x : UInt32} {validation : Validation}

theorem synscanProbeValidatePacket_answer
    (hack : ntohl (thAck m (ip + 4 * ipHl m ip)) = ntohl (validation 0) + 1) :
    synscanProbeValidatePacket g m ip len sip validation =
      if tcpPortsValid g m ip len validation then some (sip, validation) else none := by
  have hack : htonl (thAck m (ip + 4 * ipHl m ip)) = htonl (validation 0) + 1 := hack
  simp only [synscanProbeValidatePacket, hack]
  cases tcpPortsValid g m ip len validation <;> simp

theorem synackscanProbeValidatePacket_sip : (synackscanProbeValidatePacket g m ip len sip validation).map Prod.fst =
    some x ↔ (synackscanProbeValidatePacket g m ip len sip validation).isSome = true ∧ sip = x := by
  unfold synackscanProbeValidatePacket
  dsimp only
  split_ifs <;> simp

theorem icmpValidatePacket_reply (hprotocol : ipP m ip = IPPROTO_ICMP)
    (hwhole : 4 * ipHl m ip + 8 ≤ len.toNat) (htype : icmpType m (icmpOfPacket m ip) = ICMP_ECHOREPLY)
    (hid : icmpId m (icmpOfPacket m ip) = (validation 1 &&& 0xFFFF).toUInt16)
    (hseq : icmpSeq m (icmpOfPacket m ip) = (validation 2 &&& 0xFFFF).toUInt16) :
    icmpValidatePacket g m ip len sip validation = some (sip, validation) := by
  have hsmall : ¬ 4 * ipHl m ip + ICMP_SMALLEST_SIZE > len.toNat := by
    rw [ICMP_SMALLEST_SIZE]
    omega
  have herror : ¬ isIcmpError m ip := by
    rw [isIcmpError, htype]
    decide
  simp only [icmpValidatePacket, hprotocol, ne_eq, not_true, if_false, if_neg hsmall, if_neg herror, icmpWordsValid,
    hid, hseq, toUInt16_toUInt32]

end

/-! ## Answers -/

/-- The length that is passed to the check. -/
def checkedLen (context : ScanContext) (r : Packet) : UInt32 :=
  UInt32.ofNat (r.len - if context.sendIpPkts then 0 else sizeofEtherHeader)

section
variable {context : ScanContext} {p : Sent} {r : Packet} {size : Nat}

theorem Returns.checkedLen (h : Returns context p r size) :
    4 * ipHl r.data sizeofEtherHeader + size ≤ (Xmap.Scan.checkedLen context r).toNat := by
  have hwhole := h.whole
  have hlt := h.len_lt
  simp only [upper, sizeofEtherHeader] at hwhole ⊢
  rw [Xmap.Scan.checkedLen, UInt32.toNat_ofNat', Nat.mod_eq_of_lt (by omega)]
  split
  · omega
  · rw [sizeofEtherHeader]
    omega

theorem Returns.validatePacket (h : Returns context p r size) (hg : Genuine context p) :
    validatePacket context.recv r.toFrame =
      (context.probe.probe context.gcontext).probeValidatePacket r.data sizeofEtherHeader
        (Xmap.Scan.checkedLen context r) p.args.dip p.args.validation := by
  have hsrc : ipSrc r.data sizeofEtherHeader = p.args.dip := h.src.trans hg.fields.dst
  have hdst : ipDst r.data sizeofEtherHeader = p.args.sip := h.dst.trans hg.fields.src
  have hlong : ¬ r.len < sizeofIp + sizeofEtherHeader := by
    have hwhole := h.whole
    have hhl := h.hl
    rw [upper] at hwhole
    rw [sizeofIp]
    omega
  simp only [Task.validatePacket, ScanContext.recv, Packet.toFrame, if_neg hlong, hsrc, hdst, ← hg.validation]
  rfl

/-- The ports of an answer pass exactly if the port of the probe is not behind that of the last stream. -/
theorem TcpReturns.tcpPortsValid_iff (h : TcpReturns context p r) (hg : Genuine context p)
    (hk : context.probe = .tcpSynscan ∨ context.probe = .tcpSynackscan)
    (hrange : context.gcontext.sourcePortFirst ≤ context.gcontext.sourcePortLast)
    (hstreams : context.gcontext.packetStreams < 2 ^ 31) :
    tcpPortsValid context.gcontext r.data sizeofEtherHeader (checkedLen context r) p.args.validation = true ↔
      PortPasses context.gcontext p.args.toProbeArgs := by
  have hf := hg.tcpFields hk
  have hnonneg := hg.probeNum_nonneg
  have hlt := hg.probeNum_lt
  obtain ⟨i, hi⟩ := Int.eq_ofNat_of_zero_le hnonneg
  obtain ⟨s, hs⟩ := Int.eq_ofNat_of_zero_le (hnonneg.trans hlt.le)
  have hprotocol : ipP r.data sizeofEtherHeader = IPPROTO_TCP := by
    rw [h.ip.protocol, hg.fields.protocol]
    rcases hk with hk | hk <;> rw [hk] <;> rfl
  have hsport : ntohs (thSport r.data (upper r)) = context.gcontext.targetPort := by
    rw [h.sport, hf.dport, htons, ntohs_ntohs]
  have hdport : ntohs (thDport r.data (upper r)) =
      xmGetSrcPort (numPorts context.gcontext.sourcePortFirst context.gcontext.sourcePortLast) i
        context.gcontext.sourcePortFirst p.args.validation := by
    rw [h.dport, hf.sport, htons, ntohs_ntohs, hi]
  rw [PortPasses, hi, hs]
  exact tcpPortsValid_answer_iff hrange hs (by omega) (by omega) hprotocol h.ip.checkedLen hsport hdport

theorem SynAnswer.address_iff (h : SynAnswer context p r) (hg : Genuine context p) (hk : context.probe = .tcpSynscan)
    (hrange : context.gcontext.sourcePortFirst ≤ context.gcontext.sourcePortLast)
    (hstreams : context.gcontext.packetStreams < 2 ^ 31) (x : UInt32) :
    address context.recv r.toFrame = some x ↔ PortPasses context.gcontext p.args.toProbeArgs ∧ p.args.dip = x := by
  have hack : ntohl (thAck r.data (upper r)) = ntohl (p.args.validation 0) + 1 := by
    rw [h.ack, (hg.tcpFields (.inl hk)).seq]
  have hvalidate : (context.probe.probe context.gcontext).probeValidatePacket =
    synscanProbeValidatePacket context.gcontext := by rw [hk]; rfl
  rw [← h.tcp.tcpPortsValid_iff hg (.inl hk) hrange hstreams, address, h.tcp.ip.validatePacket hg, hvalidate,
    synscanProbeValidatePacket_answer hack]
  split <;> simp [*]

theorem SynAckAnswer.address_iff (h : SynAckAnswer context p r) (hg : Genuine context p)
    (hk : context.probe = .tcpSynackscan)
    (hrange : context.gcontext.sourcePortFirst ≤ context.gcontext.sourcePortLast)
    (hstreams : context.gcontext.packetStreams < 2 ^ 31) (x : UInt32) :
    address context.recv r.toFrame = some x ↔ (PortPasses context.gcontext p.args.toProbeArgs ∧
      (p.args.validation 0 = 0xFFFFFFFF ∨ p.args.validation 2 = 0 ∨ p.args.validation 2 = 0xFFFFFFFF)) ∧
        p.args.dip = x := by
  have hseq : thSeq r.data (upper r) = 0 := h.seq.trans (hg.tcpFields (.inr hk)).ack
  have hvalidate : (context.probe.probe context.gcontext).probeValidatePacket =
    synackscanProbeValidatePacket context.gcontext := by rw [hk]; rfl
  rw [← h.tcp.tcpPortsValid_iff hg (.inr hk) hrange hstreams, address, h.tcp.ip.validatePacket hg, hvalidate,
    synackscanProbeValidatePacket_sip, synackscanProbeValidatePacket_zero_iff h.rst hseq h.ack]

theorem EchoAnswer.address_iff (h : EchoAnswer context p r) (hg : Genuine context p)
    (hk : context.probe = .icmpEcho ∨ context.probe = .icmpEchoTime) (x : UInt32) :
    address context.recv r.toFrame = some x ↔ p.args.dip = x := by
  have hf := hg.echoFields hk
  have hprotocol : ipP r.data sizeofEtherHeader = IPPROTO_ICMP := by
    rw [h.ip.protocol, hg.fields.protocol]
    rcases hk with hk | hk <;> rw [hk] <;> rfl
  have hvalidate : (context.probe.probe context.gcontext).probeValidatePacket =
    icmpValidatePacket context.gcontext := by rcases hk with hk | hk <;> rw [hk] <;> rfl
  rw [address, h.ip.validatePacket hg, hvalidate, icmpValidatePacket_reply hprotocol h.ip.checkedLen h.type
    (h.id.trans hf.id) (h.seq.trans hf.seq)]
  simp

/-- An answer is accepted for the target of its probe if the probe counts, and not at all otherwise. -/
theorem IsAnswer.address_iff (h : IsAnswer context p r) (hg : Genuine context p)
    (hrange : context.gcontext.sourcePortFirst ≤ context.gcontext.sourcePortLast)
    (hstreams : context.gcontext.packetStreams < 2 ^ 31) (x : UInt32) :
    address context.recv r.toFrame = some x ↔ Counts context p ∧ p.args.dip = x := by
  cases hk : context.probe with
  | tcpSynscan =>
    simp only [IsAnswer, Counts, hk, Answers, CountsFor] at h ⊢
    exact h.address_iff hg hk hrange hstreams x
  | tcpSynackscan =>
    simp only [IsAnswer, Counts, hk, Answers, CountsFor] at h ⊢
    exact h.address_iff hg hk hrange hstreams x
  | icmpEcho =>
    simp only [IsAnswer, Counts, hk, Answers, CountsFor, true_and] at h ⊢
    exact h.address_iff hg (.inl hk) x
  | icmpEchoTime =>
    simp only [IsAnswer, Counts, hk, Answers, CountsFor, true_and] at h ⊢
    exact h.address_iff hg (.inr hk) x

end

end Xmap.Scan
