import Xmap.Probe.Reads

/-!
# Results and bounds of reads

Each computation with reads returns what the function of the modules returns. A packet of `n` bytes with a
whole IP header at `ip` is read within its bounds up to conditions on the header lengths.
-/

namespace Xmap.Probe

open Xmap.Lib

section
variable {g : ProbeContext} {pk : MsgpackPacker} {m : Mem} {a ip pbuf n : Nat} {len sip : UInt32}
  {validation : Validation} {k : ProbeModule}

/-! ## Fields -/

@[simp] theorem run_read16 : (read16 a).run m = load16 m a := by
  rw [read16, Reads.run_bind, Reads.run_block]
  rfl

@[simp] theorem run_read32 : (read32 a).run m = load32 m a := by
  rw [read32, Reads.run_bind, Reads.run_block]
  rfl

@[simp] theorem run_readIpHl : (readIpHl ip).run m = ipHl m ip := rfl

@[simp] theorem within_read16 : (read16 a).Within m n ↔ a + 2 ≤ n := by
  simp [read16, Reads.within_block]

@[simp] theorem within_read32 : (read32 a).Within m n ↔ a + 4 ≤ n := by
  simp [read32, Reads.within_block]

@[simp] theorem within_readIpHl : (readIpHl ip).Within m n ↔ ip < n := by
  simp [readIpHl]

/-! ## Results -/

@[simp] theorem run_readTcpPortsValid :
    (readTcpPortsValid g ip len validation).run m = tcpPortsValid g m ip len validation := by
  simp only [readTcpPortsValid, Reads.run_bind, Reads.run_ite, Reads.run_pure]
  simp only [run_read16]
  rfl

theorem run_readIcmpValidatePacket :
    (readIcmpValidatePacket g ip len sip validation).run m =
      icmpValidatePacket g m ip len sip validation := by
  simp only [readIcmpValidatePacket, Reads.run_bind, Reads.run_ite, Reads.run_pure]
  simp only [run_read16, run_read32]
  rfl

theorem run_readSynscanProbeValidatePacket :
    (readSynscanProbeValidatePacket g ip len sip validation).run m =
      synscanProbeValidatePacket g m ip len sip validation := by
  simp only [readSynscanProbeValidatePacket, Reads.run_bind, Reads.run_ite, Reads.run_pure]
  simp only [run_read32, run_readTcpPortsValid]
  rfl

theorem run_readSynackscanProbeValidatePacket :
    (readSynackscanProbeValidatePacket g ip len sip validation).run m =
      synackscanProbeValidatePacket g m ip len sip validation := by
  simp only [readSynackscanProbeValidatePacket, Reads.run_bind, Reads.run_ite, Reads.run_pure]
  simp only [run_read32, run_readTcpPortsValid, synackscanProbeValidatePacket, ite_and]
  rfl

@[simp] theorem run_readXmProbeIpStore {probeType : UInt8} :
    (readXmProbeIpStore pk probeType ip).run m = xmProbeIpStore pk probeType m ip := by
  simp only [readXmProbeIpStore, Reads.run_bind, Reads.run_pure, run_read16, run_read32]
  rfl

@[simp] theorem run_readTcpStore {tcp : Nat} {success : UInt8} {msg : String} :
    (readTcpStore pk tcp success msg).run m = tcpStore pk m tcp success msg := by
  simp only [readTcpStore, Reads.run_bind, Reads.run_pure, run_read16, run_read32]
  rfl

theorem run_readTcpProcessPacket {reset answer : UInt8 × String} :
    (readTcpProcessPacket pk pbuf reset answer).run m =
      if thFlags m (tcpOfPacket m pbuf) &&& TH_RST ≠ 0 then tcpStore pk m (tcpOfPacket m pbuf) reset.1 reset.2
      else tcpStore pk m (tcpOfPacket m pbuf) answer.1 answer.2 := by
  simp only [readTcpProcessPacket, Reads.run_bind, Reads.run_ite]
  simp only [run_readTcpStore]
  rfl

@[simp] theorem run_readIcmpStore {name : String} {icmp : Nat} :
    (readIcmpStore pk name n icmp).run m = icmpStore pk name n m icmp := by
  simp only [readIcmpStore, Reads.run_bind, Reads.run_pure, run_read16]
  rfl

theorem run_readIcmpProbeProcessPacket (len : UInt32) (validation : Validation) :
    (readIcmpProbeProcessPacket pk pbuf).run m = icmpProbeProcessPacket pk m pbuf len validation := by
  simp only [readIcmpProbeProcessPacket, Reads.run_bind, run_readIcmpStore]
  rfl

theorem run_readIcmpTimeProbeProcessPacket (len : UInt32) (validation : Validation) :
    (readIcmpTimeProbeProcessPacket pk pbuf).run m = icmpTimeProbeProcessPacket pk m pbuf len validation := by
  simp only [readIcmpTimeProbeProcessPacket, Reads.run_bind, Reads.run_pure, run_readIcmpStore, run_read32]
  rfl

namespace ProbeModule

theorem run_readValidatePacket : (k.readValidatePacket g ip len sip validation).run m =
    (k.probe g).probeValidatePacket m ip len sip validation := by
  cases k with
  | tcpSynscan => exact run_readSynscanProbeValidatePacket
  | tcpSynackscan => exact run_readSynackscanProbeValidatePacket
  | icmpEcho => exact run_readIcmpValidatePacket
  | icmpEchoTime => exact run_readIcmpValidatePacket

theorem run_readProcessPacket : (k.readProcessPacket pk pbuf).run m =
    (k.probe g).probeProcessPacket pk m pbuf len validation := by
  cases k with
  | tcpSynscan => exact run_readTcpProcessPacket
  | tcpSynackscan => exact run_readTcpProcessPacket
  | icmpEcho => exact run_readIcmpProbeProcessPacket len validation
  | icmpEchoTime => exact run_readIcmpTimeProbeProcessPacket len validation

end ProbeModule

/-! ## Bounds of the checks -/

/-- `n` bytes hold a whole IP header at `ip`, and `len` is at most 14 more than what there is from it on. -/
structure Captured (n ip : Nat) (len : UInt32) : Prop where
  header : ip + sizeofIp ≤ n
  len_le : len.toNat + ip ≤ n + sizeofEtherHeader

theorem within_readTcpPortsValid (h : Captured n ip len) :
    (readTcpPortsValid g ip len validation).Within m n := by
  have hh := h.header
  have hl := h.len_le
  simp only [sizeofIp, sizeofEtherHeader] at hh hl
  simp only [readTcpPortsValid, Reads.within_bind, Reads.within_ite, Reads.within_pure, Reads.within_cell]
  simp only [within_read16, within_readIpHl, run_readIpHl, sizeofTcphdr]
  refine ⟨by omega, fun _ => trivial, fun _ => ⟨by omega, fun _ => trivial, fun hlen => ?_⟩⟩
  exact ⟨by omega, by omega, fun _ => trivial, fun _ => trivial⟩

/-- What follows the check of the ports is read only if they are valid. -/
theorem within_afterPorts {α : Type} {x : α} {y : PacketReads α} (h : Captured n ip len) :
    (do let portsValid ← readTcpPortsValid g ip len validation
        if !portsValid then return x else y : PacketReads α).Within m n ↔
      (tcpPortsValid g m ip len validation = true → y.Within m n) := by
  simp only [Reads.within_bind, Reads.within_ite, Reads.within_pure, within_readTcpPortsValid h,
    run_readTcpPortsValid]
  simp

/-- The flags are the last byte of the TCP header that the checks read. -/
theorem within_readSynscanProbeValidatePacket (h : Captured n ip len) :
    (readSynscanProbeValidatePacket g ip len sip validation).Within m n ↔
      (tcpPortsValid g m ip len validation = true → ip + 4 * ipHl m ip + 14 ≤ n) := by
  have hh := h.header
  rw [sizeofIp] at hh
  refine (within_afterPorts h).trans (imp_congr_right fun _ => ?_)
  simp only [Reads.within_bind, Reads.within_ite, Reads.within_pure, implies_true, and_true]
  simp only [within_readIpHl, Reads.within_cell, within_read32, run_readIpHl]
  omega

theorem within_readSynackscanProbeValidatePacket (h : Captured n ip len) :
    (readSynackscanProbeValidatePacket g ip len sip validation).Within m n ↔
      (tcpPortsValid g m ip len validation = true → ip + 4 * ipHl m ip + 14 ≤ n) := by
  have hh := h.header
  rw [sizeofIp] at hh
  refine (within_afterPorts h).trans (imp_congr_right fun _ => ?_)
  simp only [Reads.within_bind, Reads.within_ite, Reads.within_pure, implies_true, and_true]
  simp only [within_readIpHl, Reads.within_cell, within_read32, run_readIpHl]
  -- the sequence number, read for some resets only, stands in front of the flags
  refine ⟨fun hw => by omega, fun hw => ⟨by omega, by omega, by omega, ?_⟩⟩
  intro _ _
  omega

/-- An error message whose length lets the quoted header be checked. -/
def QuoteChecked (m : Mem) (ip : Nat) (len : UInt32) : Prop :=
  isIcmpError m ip ∧
    4 * ipHl m ip + ICMP_TIMXCEED_UNREACH_HEADER_SIZE + sizeofIp ≤ len.toNat ∧
    4 * ipHl m ip + ICMP_TIMXCEED_UNREACH_HEADER_SIZE + 4 * ipHl m (ipInner m ip) + 8 ≤ len.toNat

/-- The quoted identifier is looked for behind the outer length, the quoted target in the quoted header. -/
theorem within_readIcmpValidatePacket (h : Captured n ip len) :
    (readIcmpValidatePacket g ip len sip validation).Within m n ↔
      (ipP m ip = IPPROTO_ICMP → 4 * ipHl m ip + ICMP_SMALLEST_SIZE ≤ len.toNat →
        ip + 4 * ipHl m ip + 8 ≤ n ∧
          (QuoteChecked m ip len → ip + 8 * ipHl m ip + 16 ≤ n ∧ ip + 4 * ipHl m ip + 28 ≤ n)) := by
  have hh := h.header
  have hl := h.len_le
  simp only [sizeofIp, sizeofEtherHeader] at hh hl
  simp only [readIcmpValidatePacket, Reads.within_bind, Reads.within_ite, Reads.within_pure]
  simp only [within_read16, within_read32, within_readIpHl, Reads.within_cell, run_readIpHl,
    Reads.run_cell]
  constructor
  · intro hw hp hsize
    obtain ⟨_, hseq, _, herror, _⟩ := (hw.2.2 (not_not.mpr hp)).2.2 (Nat.not_lt.mpr hsize)
    refine ⟨by omega, fun hq => ?_⟩
    obtain ⟨_, _, hquote⟩ := (herror hq.1).2 (Nat.not_lt.mpr hq.2.1)
    obtain ⟨_, hseqInner, _, hdst⟩ := hquote (Nat.not_lt.mpr hq.2.2)
    exact ⟨by omega, by omega⟩
  · intro hc
    refine ⟨by omega, fun _ => trivial, fun hp => ⟨by omega, fun _ => trivial, fun hsize => ?_⟩⟩
    have hp : ipP m ip = IPPROTO_ICMP := not_not.mp hp
    obtain ⟨hicmp, hquoted⟩ := hc hp (Nat.not_lt.mp hsize)
    refine ⟨by omega, by omega, by omega, fun he => ⟨fun _ => trivial, fun h₁ => ?_⟩, fun _ => trivial⟩
    -- the length of the quoted header is read with 28 bytes behind the outer header announced
    refine ⟨?_, fun _ => trivial, fun h₂ => ?_⟩
    · simp only [ICMP_TIMXCEED_UNREACH_HEADER_SIZE, sizeofIp] at h₁
      omega
    · obtain ⟨hword, hdst⟩ := hquoted ⟨he, Nat.not_lt.mp h₁, Nat.not_lt.mp h₂⟩
      exact ⟨by omega, by omega, by omega, by omega, trivial⟩

/-! ## Bounds of the stores -/

theorem within_readXmProbeIpStore {probeType : UInt8} (h : ip + sizeofIp ≤ n) :
    (readXmProbeIpStore pk probeType ip).Within m n := by
  simp only [sizeofIp] at h
  simp only [readXmProbeIpStore, Reads.within_bind, Reads.within_pure, Reads.within_cell, within_read16,
    within_read32]
  exact ⟨by omega, by omega, by omega, by omega, trivial⟩

theorem within_readTcpProcessPacket {reset answer : UInt8 × String} (h : tcpOfPacket m pbuf + 20 ≤ n) :
    (readTcpProcessPacket pk pbuf reset answer).Within m n := by
  have hstore (success : UInt8) (msg : String) :
      (readTcpStore pk (tcpOfPacket m pbuf) success msg).Within m n := by
    simp only [readTcpStore, Reads.within_bind, Reads.within_pure, within_read16, within_read32]
    exact ⟨by omega, by omega, by omega, by omega, by omega, trivial⟩
  rw [tcpOfPacket] at h hstore
  simp only [readTcpProcessPacket, Reads.within_bind, Reads.within_ite]
  simp only [within_readIpHl, Reads.within_cell, run_readIpHl]
  exact ⟨by omega, by omega, fun _ => hstore _ _, fun _ => hstore _ _⟩

theorem within_readIcmpStore {name : String} {i icmp : Nat} :
    (readIcmpStore pk name i icmp).Within m n ↔ icmp + 8 ≤ n := by
  simp only [readIcmpStore, Reads.within_bind, Reads.within_pure, Reads.within_cell, within_read16, and_true]
  omega

theorem within_readIcmpProbeProcessPacket : (readIcmpProbeProcessPacket pk pbuf).Within m n ↔
    icmpOfPacket m (ipHeader pbuf) + 8 ≤ n := by
  simp only [readIcmpProbeProcessPacket, Reads.within_bind, within_readIpHl, within_readIcmpStore,
    run_readIpHl, icmpOfPacket]
  omega

theorem within_readIcmpTimeProbeProcessPacket : (readIcmpTimeProbeProcessPacket pk pbuf).Within m n ↔
    icmpOfPacket m (ipHeader pbuf) + 20 ≤ n := by
  simp only [readIcmpTimeProbeProcessPacket, Reads.within_bind, Reads.within_pure, within_readIpHl,
    within_readIcmpStore, within_read32, run_readIpHl, icmpOfPacket, and_true]
  omega

/-! ## Packets that pass the checks -/

theorem tcpPortsValid_length (h : tcpPortsValid g m ip len validation = true) :
    4 * ipHl m ip + sizeofTcphdr ≤ len.toNat := by
  by_contra hlong
  rw [tcpPortsValid, if_pos (c := 4 * ipHl m ip + sizeofTcphdr > len.toNat) (Nat.not_le.mp hlong), ite_self] at h
  exact Bool.false_ne_true h

theorem synscanProbeValidatePacket_ports {r : UInt32 × Validation}
    (h : synscanProbeValidatePacket g m ip len sip validation = some r) :
    tcpPortsValid g m ip len validation = true := by
  by_contra hports
  rw [synscanProbeValidatePacket, Bool.eq_false_iff.mpr hports, Bool.not_false, if_pos rfl] at h
  exact absurd h nofun

theorem synackscanProbeValidatePacket_ports {r : UInt32 × Validation}
    (h : synackscanProbeValidatePacket g m ip len sip validation = some r) :
    tcpPortsValid g m ip len validation = true := by
  by_contra hports
  rw [synackscanProbeValidatePacket, Bool.eq_false_iff.mpr hports, Bool.not_false, if_pos rfl] at h
  exact absurd h nofun

theorem icmpValidatePacket_header {r : UInt32 × Validation}
    (h : icmpValidatePacket g m ip len sip validation = some r) :
    ipP m ip = IPPROTO_ICMP ∧ 4 * ipHl m ip + ICMP_SMALLEST_SIZE ≤ len.toNat := by
  rw [icmpValidatePacket] at h
  by_cases hp : ipP m ip ≠ IPPROTO_ICMP
  · rw [if_pos hp] at h
    exact absurd h nofun
  · rw [if_neg hp] at h
    refine ⟨not_not.mp hp, ?_⟩
    by_contra hshort
    rw [if_pos (Nat.not_le.mp hshort)] at h
    exact absurd h nofun

namespace ProbeModule

/-- What the checks of the modules read lies in the first `n` bytes. -/
def ChecksInside (k : ProbeModule) (g : ProbeContext) (m : Mem) (ip n : Nat) (len : UInt32)
    (validation : Validation) : Prop :=
  match k with
  | tcpSynscan | tcpSynackscan =>
    tcpPortsValid g m ip len validation = true → ip + 4 * ipHl m ip + 14 ≤ n
  | icmpEcho | icmpEchoTime =>
    ipP m ip = IPPROTO_ICMP → 4 * ipHl m ip + ICMP_SMALLEST_SIZE ≤ len.toNat →
      ip + 4 * ipHl m ip + 8 ≤ n ∧
        (QuoteChecked m ip len → ip + 8 * ipHl m ip + 16 ≤ n ∧ ip + 4 * ipHl m ip + 28 ≤ n)

theorem within_readValidatePacket (h : Captured n ip len) :
    (k.readValidatePacket g ip len sip validation).Within m n ↔ k.ChecksInside g m ip n len validation := by
  cases k with
  | tcpSynscan => exact within_readSynscanProbeValidatePacket h
  | tcpSynackscan => exact within_readSynackscanProbeValidatePacket h
  | icmpEcho => exact within_readIcmpValidatePacket h
  | icmpEchoTime => exact within_readIcmpValidatePacket h

/-- With the length of the packet itself, only the payload of the time module is not covered by the
checks. -/
theorem within_readProcessPacket {r : UInt32 × Validation} (hlen : len.toNat + ipHeader pbuf ≤ n)
    (hchecks : k.ChecksInside g m (ipHeader pbuf) n len validation)
    (h : (k.probe g).probeValidatePacket m (ipHeader pbuf) len sip validation = some r) :
    (k.readProcessPacket pk pbuf).Within m n ↔
      (k = icmpEchoTime → icmpOfPacket m (ipHeader pbuf) + 20 ≤ n) := by
  have htcp (hports : tcpPortsValid g m (ipHeader pbuf) len validation = true) :
      tcpOfPacket m pbuf + 20 ≤ n := by
    have := tcpPortsValid_length hports
    rw [sizeofTcphdr] at this
    rw [tcpOfPacket]
    omega
  cases k with
  | tcpSynscan =>
    exact iff_of_true (within_readTcpProcessPacket (htcp (synscanProbeValidatePacket_ports h))) nofun
  | tcpSynackscan =>
    exact iff_of_true (within_readTcpProcessPacket (htcp (synackscanProbeValidatePacket_ports h))) nofun
  | icmpEcho =>
    obtain ⟨hp, hsize⟩ := icmpValidatePacket_header h
    exact iff_of_true (within_readIcmpProbeProcessPacket.mpr (hchecks hp hsize).1) nofun
  | icmpEchoTime =>
    refine within_readIcmpTimeProbeProcessPacket.trans ⟨fun hin _ => hin, fun hin => hin rfl⟩

end ProbeModule

end

end Xmap.Probe
