import Xmap.Probe.ChecksumTheorems
import Xmap.Probe.IcmpTheorems
import Xmap.Scan.Answers
import Xmap.Task.Lemmas.Recv

/-!
# Probes and the check of their answers

The fields of a probe that its answer repeats, and what the receiver makes of the answer.
-/

namespace Xmap.Scan

open Xmap.Lib Xmap.Probe Xmap.Task

/-- The buffer of a sender between two probes. -/
def Built (context : ScanContext) (buf : Mem) : Prop :=
  ∃ (random : UInt32) (earlier : List PacketArgs),
    buf = earlier.foldl (fun m a => context.probe.makePacket context.gcontext m 0 a)
      (context.probe.threadInit (fun _ => 0) 0 (context.initArgs random))

/-- A probe that a sender has sent. -/
structure Genuine (context : ScanContext) (p : Sent) : Prop where
  built : ∃ buf, Built context buf ∧
    p.contents = fun a => context.probe.makePacket context.gcontext buf 0 p.args (sendSkip context + a)
  validation : p.args.validation = context.gcontext.validateGen p.args.sip p.args.dip
  probeNum_nonneg : 0 ≤ p.args.probeNum
  probeNum_lt : p.args.probeNum < context.gcontext.packetStreams

section
variable {g : ProbeContext} {m : Mem} {pbuf : Nat} {args : ProbeArgs} {icmpArgs : IcmpArgs}

/-! ## Fields of probes -/

theorem tcpMakePacket_ipSrc : ipSrc (tcpMakePacket g m pbuf args) (ipHeader pbuf) = args.sip := by
  simp (disch := omega) only [tcpMakePacket, ipSrc, tcpHeader, sizeofIp, load32_store16_of_disjoint,
    load32_store32_of_disjoint, load32_store8_of_disjoint, load32_store32]

theorem tcpMakePacket_ipDst : ipDst (tcpMakePacket g m pbuf args) (ipHeader pbuf) = args.dip := by
  simp (disch := omega) only [tcpMakePacket, ipDst, tcpHeader, sizeofIp, load32_store16_of_disjoint,
    load32_store32_of_disjoint, load32_store8_of_disjoint, load32_store32]

theorem tcpMakePacket_thSeq : thSeq (tcpMakePacket g m pbuf args) (tcpHeader pbuf) = args.validation 0 := by
  simp (disch := omega) only [tcpMakePacket, thSeq, tcpHeader, ipHeader, sizeofEtherHeader, sizeofIp,
    load32_store16_of_disjoint, load32_store32]

theorem makePacket_ipSrc (k : IcmpModule) : ipSrc (k.makePacket m pbuf icmpArgs) (ipHeader pbuf) = icmpArgs.sip := by
  cases k <;> simp (disch := omega) only [IcmpModule.makePacket, icmpProbeMakePacket, icmpTimeProbeMakePacket,
    icmpChecksums, icmpWords, ipSrc, icmpHeader, sizeofIp, load32_store8_of_disjoint, load32_store16_of_disjoint,
    load32_store32_of_disjoint, load32_store32]

end

/-- The fields of the headers at `ip`, as the arguments have them. -/
structure Fields (context : ScanContext) (m : Mem) (ip : Nat) (args : PacketArgs) : Prop where
  protocol : ipP m ip = context.probe.protocol
  src : ipSrc m ip = args.sip
  dst : ipDst m ip = args.dip

structure TcpFields (context : ScanContext) (m : Mem) (tcp : Nat) (args : PacketArgs) : Prop where
  sport : thSport m tcp =
    htons (xmGetSrcPort (numPorts context.gcontext.sourcePortFirst context.gcontext.sourcePortLast)
      args.probeNum context.gcontext.sourcePortFirst args.validation)
  dport : thDport m tcp = htons context.gcontext.targetPort
  seq : thSeq m tcp = args.validation 0
  ack : thAck m tcp = 0

structure EchoFields (m : Mem) (icmp : Nat) (args : PacketArgs) : Prop where
  id : icmpId m icmp = (args.validation 1 &&& 0xFFFF).toUInt16
  seq : icmpSeq m icmp = (args.validation 2 &&& 0xFFFF).toUInt16

section
variable {context : ScanContext} {buf : Mem} {args : PacketArgs} {p : Sent} {r : Packet} {size : Nat}

theorem Built.init (random : UInt32) : Built context (sendBufferInit context random).buf := ⟨random, [], rfl⟩

theorem Built.makePacket (h : Built context buf) (args : PacketArgs) :
    Built context (context.probe.makePacket context.gcontext buf 0 args) := by
  obtain ⟨random, earlier, rfl⟩ := h
  exact ⟨random, earlier ++ [args], by rw [List.foldl_append]; rfl⟩

theorem Built.fields (h : Built context buf) :
    Fields context (context.probe.makePacket context.gcontext buf 0 args) (ipHeader 0) args where
  protocol := by
    obtain ⟨random, earlier, rfl⟩ := h
    exact ProbeModule.emitted_ready.protocol
  src := by
    cases context.probe with
    | tcpSynscan => exact tcpMakePacket_ipSrc
    | tcpSynackscan => exact tcpMakePacket_ipSrc
    | icmpEcho => exact makePacket_ipSrc .echo
    | icmpEchoTime => exact makePacket_ipSrc .echoTime
  dst := by
    cases context.probe with
    | tcpSynscan => exact tcpMakePacket_ipDst
    | tcpSynackscan => exact tcpMakePacket_ipDst
    | icmpEcho => exact makePacket_ipDst (k := .echo)
    | icmpEchoTime => exact makePacket_ipDst (k := .echoTime)

/-- What every TCP probe keeps from `thread_init`. -/
theorem Built.tcpKept (h : Built context buf) (hk : context.probe = .tcpSynscan ∨ context.probe = .tcpSynackscan) :
    thDport buf (tcpHeader 0) = htons context.gcontext.targetPort ∧ thAck buf (tcpHeader 0) = 0 := by
  obtain ⟨random, earlier, rfl⟩ := h
  induction earlier using List.reverseRecOn with
  | nil => rcases hk with hk | hk <;> rw [hk] <;> exact ⟨tcpThreadInit_thDport, tcpThreadInit_thAck⟩
  | append_singleton earlier a ih =>
    rw [List.foldl_append, List.foldl_cons, List.foldl_nil]
    rcases hk with hk | hk <;> rw [hk] at ih ⊢ <;>
      exact ⟨tcpMakePacket_thDport.trans ih.1, tcpMakePacket_thAck.trans ih.2⟩

theorem Built.tcpFields (h : Built context buf) (hk : context.probe = .tcpSynscan ∨ context.probe = .tcpSynackscan) :
    TcpFields context (context.probe.makePacket context.gcontext buf 0 args) (tcpHeader 0) args := by
  obtain ⟨hdport, hack⟩ := h.tcpKept hk
  rcases hk with hk | hk <;> rw [hk] <;>
    exact ⟨tcpMakePacket_thSport, tcpMakePacket_thDport.trans hdport, tcpMakePacket_thSeq,
      tcpMakePacket_thAck.trans hack⟩

theorem echoFields (buf : Mem) (hk : context.probe = .icmpEcho ∨ context.probe = .icmpEchoTime) :
    EchoFields (context.probe.makePacket context.gcontext buf 0 args) (icmpHeader 0) args := by
  rcases hk with hk | hk <;> rw [hk]
  · exact ⟨makePacket_icmpId (k := .echo), makePacket_icmpSeq (k := .echo)⟩
  · exact ⟨makePacket_icmpId (k := .echoTime), makePacket_icmpSeq (k := .echoTime)⟩

/-! ## Fields of what is sent -/

theorem sendSkip_add_sentIp : sendSkip context + sentIp context = ipHeader 0 := by
  unfold sentIp sendSkip ipHeader
  split <;> rfl

/-- A field of the buffer is sent where it belongs. -/
theorem Genuine.contents_apply (hg : Genuine context p) : ∃ buf, Built context buf ∧
    ∀ j, p.contents (sentIp context + j) =
      context.probe.makePacket context.gcontext buf 0 p.args (ipHeader 0 + j) := by
  obtain ⟨buf, hbuf, hcontents⟩ := hg.built
  refine ⟨buf, hbuf, fun j => ?_⟩
  simp only [hcontents]
  rw [← Nat.add_assoc, sendSkip_add_sentIp]

theorem load16_shift {m q : Mem} {a b : Nat} (h : ∀ j, m (a + j) = q (b + j)) (c : Nat) :
    load16 m (a + c) = load16 q (b + c) :=
  load16_congr fun j _ => by rw [Nat.add_assoc, Nat.add_assoc, h]

theorem load32_shift {m q : Mem} {a b : Nat} (h : ∀ j, m (a + j) = q (b + j)) (c : Nat) :
    load32 m (a + c) = load32 q (b + c) :=
  load32_congr fun j _ => by rw [Nat.add_assoc, Nat.add_assoc, h]

theorem Genuine.fields (hg : Genuine context p) : Fields context p.contents (sentIp context) p.args := by
  obtain ⟨buf, hbuf, h⟩ := hg.contents_apply
  have hf : Fields context _ (ipHeader 0) p.args := hbuf.fields
  exact ⟨(h 9).trans hf.protocol, (load32_shift h 12).trans hf.src, (load32_shift h 16).trans hf.dst⟩

theorem Genuine.tcpFields (hg : Genuine context p)
    (hk : context.probe = .tcpSynscan ∨ context.probe = .tcpSynackscan) :
    TcpFields context p.contents (sentUpper context) p.args := by
  obtain ⟨buf, hbuf, h⟩ := hg.contents_apply
  have hf : TcpFields context _ (tcpHeader 0) p.args := hbuf.tcpFields hk
  exact ⟨(load16_shift h 20).trans hf.sport, (load16_shift h 22).trans hf.dport, (load32_shift h 24).trans hf.seq,
    (load32_shift h 28).trans hf.ack⟩

theorem Genuine.echoFields (hg : Genuine context p)
    (hk : context.probe = .icmpEcho ∨ context.probe = .icmpEchoTime) :
    EchoFields p.contents (sentUpper context) p.args := by
  obtain ⟨buf, hbuf, h⟩ := hg.contents_apply
  have hf : EchoFields _ (icmpHeader 0) p.args := Xmap.Scan.echoFields buf hk
  exact ⟨(load16_shift h 24).trans hf.id, (load16_shift h 26).trans hf.seq⟩

end

end Xmap.Scan
