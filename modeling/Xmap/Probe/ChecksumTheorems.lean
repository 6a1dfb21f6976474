import Xmap.Probe.Lemmas.Checksum
import Xmap.Probe.Modules

/-!
# Theorems on the lengths and checksums of probes

`make_packet` rewrites a few fields of the packet that `thread_init` made. Each checksum is computed after
the last field that it covers, and the bytes of an ICMP probe that only its checksum covers stay zero.
-/

namespace Xmap.Probe

open Xmap.Lib

def ipLen (m : Mem) (ip : Nat) : UInt16 := load16 m (ip + 2)

/-! ## Storing the checksums -/

/-- The last two writes of `make_packet`. -/
def sealIp (m : Mem) (ip : Nat) : Mem :=
  let m := store16 m (ip + 10) 0
  store16 m (ip + 10) (xmIpChecksum m ip)

def sealTcp (m : Mem) (ip tcp : Nat) : Mem :=
  let m := store16 m (tcp + 16) 0
  store16 m (tcp + 16) (xmTcpChecksum (UInt16.ofNat sizeofTcphdr) (ipSrc m ip) (ipDst m ip) m tcp)

def sealIcmp (m : Mem) (icmp : Nat) : Mem :=
  let m := store16 m (icmp + 2) 0
  store16 m (icmp + 2) (xmIcmpChecksum m icmp)

section
variable {g : ProbeContext} {m : Mem} {pbuf ip tcp icmp i : Nat}

theorem sealIp_apply (h : i < ip + 10 ∨ ip + 12 ≤ i) : sealIp m ip i = m i := by
  rw [sealIp, store16_of_disjoint _ h, store16_of_disjoint _ h]

theorem sealIp_sum : AllOnes (sumWords (sealIp m ip) ip 10) := by
  have hj : ip + 10 = ip + 2 * 5 := rfl
  exact sumWords_checksum_self hj (by decide) (load16_store16 0) (by decide)

theorem sealIcmp_sum : AllOnes (sumWords (sealIcmp m icmp) icmp 14) := by
  have hj : icmp + 2 = icmp + 2 * 1 := rfl
  exact sumWords_checksum_self hj (by decide) (load16_store16 0) (by decide)

/-- The sum of a pseudo-header for `len` bytes, whose addresses stand in the header at `ip`. -/
def pseudoSum (m : Mem) (ip : Nat) (len : UInt16) : Nat :=
  sumWords m (ip + 12) 4 + (htons len).toNat + (htons 6).toNat

theorem xmTcpChecksum_eq : xmTcpChecksum (UInt16.ofNat sizeofTcphdr) (ipSrc m ip) (ipDst m ip) m tcp =
    foldSum (sumWords m tcp 10 + pseudoSum m ip 20) := by
  have hsrc : (ipSrc m ip).toNat % 2 ^ 16 + (ipSrc m ip).toNat / 2 ^ 16 = sumWords m (ip + 12) 2 :=
    load32_halves
  have hdst : (ipDst m ip).toNat % 2 ^ 16 + (ipDst m ip).toNat / 2 ^ 16 = sumWords m (ip + 16) 2 :=
    load32_halves
  have hboth : sumWords m (ip + 12) 4 = sumWords m (ip + 12) 2 + sumWords m (ip + 16) 2 :=
    sumWords_add (n := 2) (j := 2)
  have hlen : (UInt16.ofNat sizeofTcphdr).toNat = 20 := rfl
  have heven : ¬ (20 % 2 = 1) := by decide
  rw [xmTcpChecksum, hlen, if_neg heven, Nat.add_zero, hsrc, Nat.add_assoc (sumWords m (ip + 12) 2), hdst,
    ← hboth]
  rfl

theorem sealTcp_sum (h : ip + 20 ≤ tcp) :
    AllOnes (sumWords (sealTcp m ip tcp) tcp 10 + pseudoSum (sealTcp m ip tcp) ip 20) := by
  have hframe (v : UInt16) (p : Mem) : pseudoSum (store16 p (tcp + 16) v) ip 20 = pseudoSum p ip 20 := by
    rw [pseudoSum, sumWords_store16_of_disjoint (by omega)]
    rfl
  have hle : pseudoSum m ip 20 ≤ 4 * 0xFFFF + 2 ^ 16 + 2 ^ 16 := by
    have := sumWords_le (m := m) (a := ip + 12) (n := 4)
    have := (htons 20).toNat_lt
    have := (htons 6).toNat_lt
    rw [pseudoSum]
    omega
  have hj : tcp + 16 = tcp + 2 * 8 := rfl
  simp only [sealTcp, xmTcpChecksum_eq, hframe]
  exact sumWords_checksum hj (by decide) (load16_store16 0) (by omega)

end

/-! ## Fields that stay -/

section
variable {g : ProbeContext} {m p : Mem} {pbuf i : Nat} {k : ProbeModule}

/-- `make_packet` writes neither here nor anywhere outside the packet that the header announces. -/
def Stays (pbuf i : Nat) : Prop :=
  i < ipHeader pbuf + 8 ∨ i = ipHeader pbuf + 9 ∨ ipHeader pbuf + 40 ≤ i

theorem tcpMakePacket_stays {args : ProbeArgs} (h : Stays pbuf i) : tcpMakePacket g m pbuf args i = m i := by
  rw [Stays] at h
  simp (disch := omega) only [tcpMakePacket, tcpHeader, sizeofIp, store8_of_ne, store16_of_disjoint,
    store32_of_disjoint]

theorem icmpProbeMakePacket_stays {args : IcmpArgs} (h : Stays pbuf i) :
    icmpProbeMakePacket m pbuf args i = m i := by
  rw [Stays] at h
  simp (disch := omega) only [icmpProbeMakePacket, icmpChecksums, icmpWords, icmpHeader, sizeofIp,
    store8_of_ne, store16_of_disjoint, store32_of_disjoint]

theorem icmpTimeProbeMakePacket_stays {args : IcmpArgs} (h : Stays pbuf i) :
    icmpTimeProbeMakePacket m pbuf args i = m i := by
  rw [Stays] at h
  simp (disch := omega) only [icmpTimeProbeMakePacket, icmpChecksums, icmpWords, icmpHeader, sizeofIp,
    store8_of_ne, store16_of_disjoint, store32_of_disjoint]

theorem ProbeModule.makePacket_stays {args : PacketArgs} (h : Stays pbuf i) :
    k.makePacket g m pbuf args i = m i := by
  cases k with
  | tcpSynscan => exact tcpMakePacket_stays h
  | tcpSynackscan => exact tcpMakePacket_stays h
  | icmpEcho => exact icmpProbeMakePacket_stays h
  | icmpEchoTime => exact icmpTimeProbeMakePacket_stays h

def ProbeModule.protocol : ProbeModule → UInt8
  | tcpSynscan | tcpSynackscan => IPPROTO_TCP
  | icmpEcho | icmpEchoTime => IPPROTO_ICMP

/-- The bytes behind the IP header: a TCP header, or an ICMP header of 8 bytes and 12 bytes of payload. -/
def ProbeModule.upperLength : ProbeModule → Nat
  | tcpSynscan | tcpSynackscan => sizeofTcphdr
  | icmpEcho | icmpEchoTime => 8 + 12

/-- What `thread_init` leaves in a buffer for good. -/
structure ProbeModule.Ready (k : ProbeModule) (m : Mem) (pbuf : Nat) : Prop where
  hl : ipHl m (ipHeader pbuf) = 5
  len : ntohs (ipLen m (ipHeader pbuf)) = UInt16.ofNat (sizeofIp + k.upperLength)
  protocol : ipP m (ipHeader pbuf) = k.protocol
  zeros : ∀ i, ipHeader pbuf + 40 ≤ i → i < ipHeader pbuf + 48 → m i = 0

theorem ProbeModule.Ready.congr (h : k.Ready m pbuf) (hp : ∀ i, Stays pbuf i → p i = m i) :
    k.Ready p pbuf where
  hl := by
    rw [ipHl, hp _ (Or.inl (by omega))]
    exact h.hl
  len := by
    rw [ipLen, load16_congr fun j hj => hp _ (Or.inl (by omega))]
    exact h.len
  protocol := (hp _ (Or.inr (Or.inl rfl))).trans h.protocol
  zeros i hi hi' := (hp i (Or.inr (Or.inr hi))).trans (h.zeros i hi hi')

theorem ProbeModule.Ready.makePacket {args : PacketArgs} (h : k.Ready m pbuf) :
    k.Ready (k.makePacket g m pbuf args) pbuf :=
  h.congr fun _ hi => makePacket_stays hi

theorem ProbeModule.Ready.run {earlier : List PacketArgs} (h : k.Ready m pbuf) :
    k.Ready (earlier.foldl (fun m a => k.makePacket g m pbuf a) m) pbuf := by
  induction earlier generalizing m with
  | nil => exact h
  | cons a earlier ih => exact ih h.makePacket

/-! ## The packet of `thread_init` -/

theorem xmMakeEthHeader_apply {src dst : List UInt8} (h : ipHeader pbuf ≤ i) :
    xmMakeEthHeader m pbuf src dst i = m i := by
  rw [ipHeader, sizeofEtherHeader] at h
  have hsrc : (src.take 6).length ≤ 6 := List.length_take_le 6 src
  have hdst : (dst.take 6).length ≤ 6 := List.length_take_le 6 dst
  rw [xmMakeEthHeader, store16_of_disjoint _ (by omega), Mem.write_apply_of_disjoint (by omega),
    Mem.write_apply_of_disjoint (by omega)]

theorem inBuffer_of_tail (h : ipHeader pbuf + 40 ≤ i) (h' : i < ipHeader pbuf + 48) :
    pbuf ≤ i ∧ i < pbuf + MAX_PACKET_SIZE := by
  rw [ipHeader, sizeofEtherHeader] at h h'
  rw [MAX_PACKET_SIZE]
  omega

/-- The headers up to that of IP, in a buffer of zeros. -/
theorem xmMakeIpHeader_ready {smac dmac : List UInt8} {protocol : UInt8} {len : Nat}
    (hk : k.protocol = protocol) (hlen : sizeofIp + k.upperLength = len) :
    k.Ready (xmMakeIpHeader (xmMakeEthHeader (m.write pbuf (List.replicate MAX_PACKET_SIZE 0)) pbuf smac
      dmac) (ipHeader pbuf) protocol (htons (UInt16.ofNat len))) pbuf where
  hl := by
    simp (disch := omega) [xmMakeIpHeader, ipHl, store8_of_ne, store16_of_disjoint]
  len := by
    simp (disch := omega) only [xmMakeIpHeader, ipLen, load16_store8_of_disjoint,
      load16_store16_of_disjoint, load16_store16, htons, ntohs_ntohs, hlen]
  protocol := by
    simp (disch := omega) only [xmMakeIpHeader, ipP, store8_self, store16_of_disjoint, hk]
  zeros i hi hi' := by
    have hbuf := inBuffer_of_tail hi hi'
    simp (disch := omega) only [xmMakeIpHeader, store8_of_ne, store16_of_disjoint, xmMakeEthHeader_apply]
    exact Mem.write_replicate_apply hbuf.1 hbuf.2

theorem xmMakeTcpHeader_stays {dport flags : UInt16} {random : UInt32} (h : Stays pbuf i) :
    xmMakeTcpHeader m (tcpHeader pbuf) dport flags random i = m i := by
  rw [Stays] at h
  simp (disch := omega) only [xmMakeTcpHeader, tcpHeader, sizeofIp, store8_of_ne, store16_of_disjoint,
    store32_of_disjoint]

theorem xmMakeIcmpHeader_stays (h : Stays pbuf i) : xmMakeIcmpHeader m (icmpHeader pbuf) i = m i := by
  rw [Stays] at h
  simp (disch := omega) only [xmMakeIcmpHeader, icmpHeader, sizeofIp, store8_of_ne, store16_of_disjoint]

theorem tcpThreadInit_ready {flags dport : UInt16} {smac dmac : List UInt8} {random : UInt32}
    (hk : k.protocol = IPPROTO_TCP) (hlen : k.upperLength = sizeofTcphdr) :
    k.Ready (tcpThreadInit flags m pbuf smac dmac dport random) pbuf :=
  (xmMakeIpHeader_ready hk (congrArg (sizeofIp + ·) hlen)).congr fun _ hi => xmMakeTcpHeader_stays hi

theorem icmpThreadInit_ready {smac dmac : List UInt8} (hk : k.protocol = IPPROTO_ICMP)
    (hlen : k.upperLength = 8 + 12) : k.Ready (icmpThreadInit m pbuf smac dmac) pbuf :=
  (xmMakeIpHeader_ready hk (congrArg (sizeofIp + ·) hlen)).congr fun _ hi => xmMakeIcmpHeader_stays hi

theorem ProbeModule.threadInit_ready (args : InitArgs) : k.Ready (k.threadInit m pbuf args) pbuf := by
  cases k with
  | tcpSynscan => exact tcpThreadInit_ready rfl rfl
  | tcpSynackscan => exact tcpThreadInit_ready rfl rfl
  | icmpEcho => exact icmpThreadInit_ready rfl rfl
  | icmpEchoTime => exact icmpThreadInit_ready rfl rfl

theorem ProbeModule.emitted_ready {init : InitArgs} {earlier : List PacketArgs} {args : PacketArgs} :
    k.Ready (k.emitted g m pbuf init earlier args) pbuf :=
  ((threadInit_ready init).run).makePacket

end

/-! ## What a receiver checks -/

def pseudoHeader (m : Mem) (ip upperLength : Nat) : List UInt8 :=
  m.read (ip + 12) 8 ++ ([0, ipP m ip] ++ toBE 2 upperLength)

/-- The bytes that the checksum behind the IP header covers. -/
def ProbeModule.upperBytes (k : ProbeModule) (m : Mem) (ip : Nat) : List UInt8 :=
  match k with
  | tcpSynscan | tcpSynackscan =>
    pseudoHeader m ip k.upperLength ++ m.read (ip + sizeofIp) k.upperLength
  | icmpEcho | icmpEchoTime => m.read (ip + sizeofIp) k.upperLength

/-- The length and both checksums of the packet at `ip` are right. -/
structure ProbeModule.Sound (k : ProbeModule) (m : Mem) (ip : Nat) : Prop where
  headerLength : ipHl m ip = 5
  protocol : ipP m ip = k.protocol
  totalLength : (ntohs (ipLen m ip)).toNat = 20 + k.upperLength
  headerSum : inetSum (m.read ip sizeofIp) = 0xFFFF
  upperSum : inetSum (k.upperBytes m ip) = 0xFFFF

section
variable {g : ProbeContext} {m p : Mem} {pbuf ip : Nat} {k : ProbeModule}

/-- With the protocol of the pseudo-header in the header, its words are summed as the code does. -/
theorem inetSum_segment_iff (hp : ipP m ip = IPPROTO_TCP) :
    inetSum (pseudoHeader m ip 20 ++ m.read (ip + 20) 20) = 0xFFFF ↔
      AllOnes (sumWords m (ip + 20) 10 + pseudoSum m ip 20) := by
  have haddr : (leWords (m.read (ip + 12) 8)).sum = sumWords m (ip + 12) 4 := (sumWords_eq (n := 4)).symm
  have htail : (leWords ([0, IPPROTO_TCP] ++ toBE 2 20)).sum = (htons 20).toNat + (htons 6).toNat := by decide
  have hseg : (leWords (m.read (ip + 20) 20)).sum = sumWords m (ip + 20) 10 :=
    (sumWords_eq (n := 10)).symm
  have hsum : (leWords (pseudoHeader m ip 20 ++ m.read (ip + 20) 20)).sum =
      sumWords m (ip + 20) 10 + pseudoSum m ip 20 := by
    rw [pseudoHeader, hp, leWords_append _ _ (by simp), leWords_append _ _ (by rw [Mem.length_read]),
      List.sum_append, List.sum_append, haddr, htail, hseg, pseudoSum]
    omega
  rw [inetSum_eq_max_iff, hsum, AllOnes]

theorem sealed_segment (hp : ipP (sealIp (sealTcp p ip (ip + 20)) ip) ip = IPPROTO_TCP) :
    inetSum (pseudoHeader (sealIp (sealTcp p ip (ip + 20)) ip) ip 20 ++
      (sealIp (sealTcp p ip (ip + 20)) ip).read (ip + 20) 20) = 0xFFFF := by
  have hsum : AllOnes (sumWords (sealTcp p ip (ip + 20)) (ip + 20) 10 +
    pseudoSum (sealTcp p ip (ip + 20)) ip 20) := sealTcp_sum le_rfl
  generalize sealTcp p ip (ip + 20) = q at hp hsum ⊢
  have hseg : sumWords (sealIp q ip) (ip + 20) 10 = sumWords q (ip + 20) 10 :=
    sumWords_congr fun i hi _ => sealIp_apply (by omega)
  have haddr : sumWords (sealIp q ip) (ip + 12) 4 = sumWords q (ip + 12) 4 :=
    sumWords_congr fun i hi _ => sealIp_apply (by omega)
  rw [inetSum_segment_iff hp, hseg, pseudoSum, haddr]
  exact hsum

/-- The checksum of 28 bytes is that of the message if the bytes behind it are zero. -/
theorem sealed_message (hz : ∀ i, ip + 40 ≤ i → i < ip + 48 → sealIp (sealIcmp p (ip + 20)) ip i = 0) :
    inetSum ((sealIp (sealIcmp p (ip + 20)) ip).read (ip + 20) 20) = 0xFFFF := by
  have hsum : AllOnes (sumWords (sealIcmp p (ip + 20)) (ip + 20) 14) := sealIcmp_sum
  generalize sealIcmp p (ip + 20) = q at hz hsum ⊢
  have hmsg : sumWords (sealIp q ip) (ip + 20) 14 = sumWords q (ip + 20) 14 :=
    sumWords_congr fun i hi _ => sealIp_apply (by omega)
  have hzero : sumWords (sealIp q ip) (ip + 40) 4 = 0 := sumWords_of_zero fun i hi hi' => hz i hi hi'
  have hsplit : sumWords (sealIp q ip) (ip + 20) 14 =
      sumWords (sealIp q ip) (ip + 20) 10 + sumWords (sealIp q ip) (ip + 40) 4 :=
    sumWords_add (n := 10) (j := 4)
  rw [← hmsg, hsplit, hzero, Nat.add_zero] at hsum
  exact (inetSum_read_iff (n := 10)).mpr hsum

theorem sealed_header : inetSum ((sealIp p ip).read ip sizeofIp) = 0xFFFF :=
  inetSum_read_iff.mpr sealIp_sum

theorem ProbeModule.makePacket_headerSum (args : PacketArgs) :
    inetSum ((k.makePacket g m pbuf args).read (ipHeader pbuf) sizeofIp) = 0xFFFF := by
  cases k with
  | tcpSynscan => exact sealed_header
  | tcpSynackscan => exact sealed_header
  | icmpEcho => exact sealed_header
  | icmpEchoTime => exact sealed_header

theorem ProbeModule.Ready.upperSum {args : PacketArgs} (h : k.Ready (k.makePacket g m pbuf args) pbuf) :
    inetSum (k.upperBytes (k.makePacket g m pbuf args) (ipHeader pbuf)) = 0xFFFF := by
  cases k with
  | tcpSynscan => exact sealed_segment h.protocol
  | tcpSynackscan => exact sealed_segment h.protocol
  | icmpEcho => exact sealed_message h.zeros
  | icmpEchoTime => exact sealed_message h.zeros

/-- Every probe that a module builds in the buffer of its thread announces its length and has right
checksums, whatever it built there before. -/
theorem makePacket_sound (k : ProbeModule) (g : ProbeContext) (m : Mem) (pbuf : Nat) (init : InitArgs)
    (earlier : List PacketArgs) (args : PacketArgs) :
    k.Sound (k.emitted g m pbuf init earlier args) (ipHeader pbuf) where
  headerLength := ProbeModule.emitted_ready.hl
  protocol := ProbeModule.emitted_ready.protocol
  totalLength := by
    rw [ProbeModule.emitted_ready.len]
    cases k <;> rfl
  headerSum := ProbeModule.makePacket_headerSum args
  upperSum := ProbeModule.emitted_ready.upperSum

end

end Xmap.Probe
