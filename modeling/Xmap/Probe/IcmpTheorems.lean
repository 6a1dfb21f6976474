import Xmap.Probe.IcmpScan

/-!
# Theorems on error messages that quote a probe

The check finds the quoted ICMP header behind the length of the outer header, so options there mislead it.
-/

namespace Xmap.Probe

open Xmap.Lib

section
variable {m : Mem} {pbuf : Nat} {args : IcmpArgs} {k : IcmpModule}

/-! ## Fields of a probe -/

/-- The fields of a probe that a quoted one is checked by. -/
structure IcmpProbe (p : Mem) (pbuf : Nat) (args : IcmpArgs) : Prop where
  hl : ipHl p (ipHeader pbuf) = 5
  dst : ipDst p (ipHeader pbuf) = args.dip
  id : icmpId p (icmpHeader pbuf) = (args.validation 1 &&& 0xFFFF).toUInt16
  seq : icmpSeq p (icmpHeader pbuf) = (args.validation 2 &&& 0xFFFF).toUInt16

theorem icmpThreadInit_ipHl {smac dmac : List UInt8} :
    ipHl (icmpThreadInit m pbuf smac dmac) (ipHeader pbuf) = 5 := by
  simp (disch := omega) [icmpThreadInit, xmMakeIcmpHeader, xmMakeIpHeader, ipHl, icmpHeader, sizeofIp,
    store8_of_ne, store16_of_disjoint]

theorem makePacket_ipHl :
    ipHl (k.makePacket m pbuf args) (ipHeader pbuf) = ipHl m (ipHeader pbuf) := by
  cases k <;> simp (disch := omega) only [IcmpModule.makePacket, icmpProbeMakePacket,
    icmpTimeProbeMakePacket, icmpChecksums, icmpWords, ipHl, icmpHeader, sizeofIp, store8_of_ne,
    store16_of_disjoint, store32_of_disjoint]

theorem makePacket_ipDst : ipDst (k.makePacket m pbuf args) (ipHeader pbuf) = args.dip := by
  cases k <;> simp (disch := omega) only [IcmpModule.makePacket, icmpProbeMakePacket,
    icmpTimeProbeMakePacket, icmpChecksums, icmpWords, ipDst, icmpHeader, sizeofIp,
    load32_store8_of_disjoint, load32_store16_of_disjoint, load32_store32_of_disjoint, load32_store32]

theorem makePacket_icmpId : icmpId (k.makePacket m pbuf args) (icmpHeader pbuf) =
    (args.validation 1 &&& 0xFFFF).toUInt16 := by
  cases k <;> simp (disch := omega) only [IcmpModule.makePacket, icmpProbeMakePacket,
    icmpTimeProbeMakePacket, icmpChecksums, icmpWords, icmpId, icmpHeader, sizeofIp,
    load16_store16_of_disjoint, load16_store32_of_disjoint, load16_store16]

theorem makePacket_icmpSeq : icmpSeq (k.makePacket m pbuf args) (icmpHeader pbuf) =
    (args.validation 2 &&& 0xFFFF).toUInt16 := by
  cases k <;> simp (disch := omega) only [IcmpModule.makePacket, icmpProbeMakePacket,
    icmpTimeProbeMakePacket, icmpChecksums, icmpWords, icmpSeq, icmpHeader, sizeofIp,
    load16_store16_of_disjoint, load16_store32_of_disjoint, load16_store16]

/-- A probe that a module builds in the buffer of its thread, after any others. -/
def icmpProbe (k : IcmpModule) (m : Mem) (pbuf : Nat) (smac dmac : List UInt8)
    (earlier : List IcmpArgs) (args : IcmpArgs) : Mem :=
  k.makePacket (earlier.foldl (fun m a => k.makePacket m pbuf a) (k.threadInit m pbuf smac dmac)) pbuf
    args

theorem icmpProbe_fields (smac dmac : List UInt8) (earlier : List IcmpArgs) :
    IcmpProbe (icmpProbe k m pbuf smac dmac earlier args) pbuf args where
  hl := by
    have hinit : ipHl (k.threadInit m pbuf smac dmac) (ipHeader pbuf) = 5 := by
      cases k <;> exact icmpThreadInit_ipHl
    rw [icmpProbe, makePacket_ipHl]
    generalize k.threadInit m pbuf smac dmac = m' at hinit
    induction earlier generalizing m' with
    | nil => exact hinit
    | cons a earlier ih => exact ih _ (makePacket_ipHl.trans hinit)
  dst := makePacket_ipDst
  id := makePacket_icmpId
  seq := makePacket_icmpSeq

end

/-! ## Error messages -/

/-- The packet at `ip` is an error message to the sender of the probe `p` in `pbuf`: it quotes the IP
header and 8 more bytes, and `len` bytes are there from its own header on. -/
structure Quotes (p : Mem) (pbuf : Nat) (args : IcmpArgs) (m : Mem) (ip : Nat) (len : UInt32) :
    Prop where
  protocol : ipP m ip = IPPROTO_ICMP
  error : isIcmpError m ip
  hl : 5 ≤ ipHl m ip
  dst : ipDst m ip = args.sip
  quoted : ∀ j < 28, m (ipInner m ip + j) = p (ipHeader pbuf + j)
  whole : 4 * ipHl m ip + 8 + 28 ≤ len.toNat

section
variable {g : ProbeContext} {p m : Mem} {pbuf ip : Nat} {args : IcmpArgs} {len : UInt32}

/-- The ICMP header that a message quotes. -/
def quotedIcmp (m : Mem) (ip : Nat) : Nat := ipInner m ip + 4 * ipHl m (ipInner m ip)

theorem Quotes.ipHl_inner (h : Quotes p pbuf args m ip len) (hp : IcmpProbe p pbuf args) :
    ipHl m (ipInner m ip) = 5 := by
  rw [← hp.hl, ipHl, ipHl, ← Nat.add_zero (ipInner m ip), h.quoted 0 (by omega), Nat.add_zero]

theorem Quotes.ipDst_inner (h : Quotes p pbuf args m ip len) (hp : IcmpProbe p pbuf args) :
    ipDst m (ipInner m ip) = args.dip := by
  rw [← hp.dst, ipDst, ipDst]
  exact load32_congr fun j hj => by
    rw [Nat.add_assoc, Nat.add_assoc]
    exact h.quoted (16 + j) (by omega)

theorem Quotes.icmpId_inner (h : Quotes p pbuf args m ip len) (hp : IcmpProbe p pbuf args) :
    icmpId m (quotedIcmp m ip) = (args.validation 1 &&& 0xFFFF).toUInt16 := by
  rw [← hp.id, quotedIcmp, h.ipHl_inner hp, icmpId, icmpId, icmpHeader, sizeofIp]
  exact load16_congr fun j hj => by
    rw [Nat.add_assoc, Nat.add_assoc, Nat.add_assoc, Nat.add_assoc]
    exact h.quoted (20 + (4 + j)) (by omega)

theorem Quotes.icmpSeq_inner (h : Quotes p pbuf args m ip len) (hp : IcmpProbe p pbuf args) :
    icmpSeq m (quotedIcmp m ip) = (args.validation 2 &&& 0xFFFF).toUInt16 := by
  rw [← hp.seq, quotedIcmp, h.ipHl_inner hp, icmpSeq, icmpSeq, icmpHeader, sizeofIp]
  exact load16_congr fun j hj => by
    rw [Nat.add_assoc, Nat.add_assoc, Nat.add_assoc, Nat.add_assoc]
    exact h.quoted (20 + (6 + j)) (by omega)

theorem toUInt16_toUInt32 (v : UInt32) : (v &&& 0xFFFF).toUInt16.toUInt32 = v &&& 0xFFFF := by
  refine UInt32.toNat_inj.mp ?_
  rw [UInt16.toNat_toUInt32, UInt32.toNat_toUInt16, UInt32.toNat_and,
    show (0xFFFF : UInt32).toNat = 2 ^ 16 - 1 from rfl, Nat.and_two_pow_sub_one_eq_mod, Nat.mod_mod]

/-- What the check of a quoting message comes to. -/
theorem Quotes.validate (h : Quotes p pbuf args m ip len) (hp : IcmpProbe p pbuf args)
    (sip : UInt32) (validation : Validation) :
    icmpValidatePacket g m ip len sip validation =
      icmpWordsValid (icmpId m (icmpInner m ip)) (icmpSeq m (icmpInner m ip)) args.sip
        (g.validateGen args.sip args.dip) := by
  have hwhole := h.whole
  have hsmall : ¬ 4 * ipHl m ip + ICMP_SMALLEST_SIZE > len.toNat := by
    rw [ICMP_SMALLEST_SIZE]
    omega
  have hheader : ¬ 4 * ipHl m ip + ICMP_TIMXCEED_UNREACH_HEADER_SIZE + sizeofIp > len.toNat := by
    rw [ICMP_TIMXCEED_UNREACH_HEADER_SIZE, sizeofIp]
    omega
  have hquoted : ¬ 4 * ipHl m ip + ICMP_TIMXCEED_UNREACH_HEADER_SIZE + 4 * 5 + 8 > len.toNat := by
    rw [ICMP_TIMXCEED_UNREACH_HEADER_SIZE]
    omega
  simp only [icmpValidatePacket, h.protocol, ne_eq, not_true, if_false, if_neg hsmall, if_pos h.error,
    if_neg hheader, h.ipHl_inner hp, if_neg hquoted, h.dst, h.ipDst_inner hp]

/-- The check reads the quoted identifier and sequence number and accepts the message if and only if the
message's own header has no options. -/
theorem icmpProbeValidatePacket_quoted_iff (k : IcmpModule) (g : ProbeContext) (buf : Mem) (pbuf : Nat)
    (smac dmac : List UInt8) (earlier : List IcmpArgs) {args : IcmpArgs}
    (hwords : args.validation = g.validateGen args.sip args.dip)
    (hquotes : Quotes (icmpProbe k buf pbuf smac dmac earlier args) pbuf args m ip len)
    (sip : UInt32) (validation : Validation) :
    (icmpInner m ip = quotedIcmp m ip ∧
      ((k.probe g).probeValidatePacket m ip len sip validation).isSome = true) ↔ ipHl m ip = 5 := by
  have hp : IcmpProbe (icmpProbe k buf pbuf smac dmac earlier args) pbuf args :=
    icmpProbe_fields smac dmac earlier
  rw [k.probe_validatePacket, hquotes.validate hp]
  constructor
  · rintro ⟨hinner, _⟩
    rw [icmpInner, quotedIcmp, hquotes.ipHl_inner hp] at hinner
    omega
  · intro hl
    have hinner : icmpInner m ip = quotedIcmp m ip := by
      rw [icmpInner, quotedIcmp, hquotes.ipHl_inner hp, hl]
    refine ⟨hinner, ?_⟩
    rw [hinner, hquotes.icmpId_inner hp, hquotes.icmpSeq_inner hp, icmpWordsValid, ← hwords,
      toUInt16_toUInt32, toUInt16_toUInt32]
    simp

end

/-! ## A message that quotes a probe -/

/-- A time-exceeded message at `ip` with a header of `hl` words, which quotes the probe in `pbuf`. -/
def timeExceeded (ip hl : Nat) (dst : UInt32) (p : Mem) (pbuf : Nat) : Mem :=
  let m := store8 (fun _ => 0) ip (UInt8.ofNat (0x40 + hl))
  let m := store8 m (ip + 9) IPPROTO_ICMP
  let m := store32 m (ip + 16) dst
  let m := store8 m (ip + 4 * hl) ICMP_TIMXCEED
  m.write (ip + 4 * hl + 8) (p.read (ipHeader pbuf) 28)

section
variable {p : Mem} {pbuf ip hl : Nat} {args : IcmpArgs} {dst : UInt32}

theorem timeExceeded_apply {i : Nat} (h : i < ip + 4 * hl + 8) : timeExceeded ip hl dst p pbuf i =
    store8 (store32 (store8 (store8 (fun _ => 0) ip (UInt8.ofNat (0x40 + hl))) (ip + 9) IPPROTO_ICMP)
      (ip + 16) dst) (ip + 4 * hl) ICMP_TIMXCEED i := by
  simp only [timeExceeded, Mem.write, Mem.length_read]
  rw [if_neg (by omega)]

theorem timeExceeded_ipHl (h5 : 5 ≤ hl) (h15 : hl ≤ 15) :
    ipHl (timeExceeded ip hl dst p pbuf) ip = hl := by
  rw [ipHl, timeExceeded_apply (by omega)]
  simp (disch := omega) only [store8_of_ne, store32_of_disjoint, store8_self, UInt8.toNat_ofNat']
  omega

theorem timeExceeded_ipDst (h5 : 5 ≤ hl) : ipDst (timeExceeded ip hl dst p pbuf) ip = dst := by
  rw [ipDst]
  refine (load32_congr fun j hj => timeExceeded_apply (by omega)).trans ?_
  rw [load32_store8_of_disjoint _ (by omega), load32_store32]

theorem timeExceeded_quotes (h5 : 5 ≤ hl) (h15 : hl ≤ 15) :
    Quotes p pbuf args (timeExceeded ip hl args.sip p pbuf) ip (UInt32.ofNat (4 * hl + 36)) where
  protocol := by
    rw [ipP, timeExceeded_apply (by omega)]
    simp (disch := omega) [store8_of_ne, store32_of_disjoint]
  error := by
    refine Or.inl ?_
    rw [icmpOfPacket, timeExceeded_ipHl h5 h15, icmpType, timeExceeded_apply (by omega), store8_self]
  hl := by rwa [timeExceeded_ipHl h5 h15]
  dst := timeExceeded_ipDst h5
  quoted j hj := by
    simp only [ipInner, icmpOfPacket, timeExceeded_ipHl h5 h15]
    simp only [timeExceeded, Mem.write, Mem.length_read]
    rw [if_pos (by omega), Nat.add_sub_cancel_left, Mem.read, List.getD_eq_getElem?_getD]
    simp [hj]
  whole := by
    rw [timeExceeded_ipHl h5 h15, UInt32.toNat_ofNat', Nat.mod_eq_of_lt (by omega)]

end

/-! ## A probe and its messages -/

/-- A scan whose validation words are all 1. -/
def onesContext : ProbeContext := ⟨0, 0, 0, 1, fun _ _ _ => 1⟩

def echoArgs (dip : UInt32) : IcmpArgs := ⟨0x0100000A, dip, 64, fun _ => 1, 0, 0⟩

def echoProbe (dip : UInt32) : Mem := icmpProbe .echo (fun _ => 0) 0 [] [] [] (echoArgs dip)

/-- The message at `ip` that quotes the probe to a target, with a header of `hl` words. -/
def echoExceeded (ip hl : Nat) (dip : UInt32) : Mem := timeExceeded ip hl 0x0100000A (echoProbe dip) 0

theorem echoExceeded_quotes {ip hl : Nat} {dip : UInt32} (h5 : 5 ≤ hl) (h15 : hl ≤ 15) :
    Quotes (echoProbe dip) 0 (echoArgs dip) (echoExceeded ip hl dip) ip
      (UInt32.ofNat (4 * hl + 36)) :=
  timeExceeded_quotes h5 h15

theorem icmpProbeValidatePacket_quoted_iff_plain :
    (icmpInner (echoExceeded 0 5 7) 0 = quotedIcmp (echoExceeded 0 5 7) 0 ∧
      ((IcmpModule.echo.probe onesContext).probeValidatePacket (echoExceeded 0 5 7) 0
        (UInt32.ofNat (4 * 5 + 36)) 0 fun _ => 0).isSome = true) ↔ ipHl (echoExceeded 0 5 7) 0 = 5 :=
  have hwords : (echoArgs 7).validation = onesContext.validateGen (echoArgs 7).sip (echoArgs 7).dip :=
    rfl
  icmpProbeValidatePacket_quoted_iff .echo onesContext (fun _ => 0) 0 [] [] [] hwords
    (echoExceeded_quotes (by decide) (by decide)) 0 fun _ => 0

/-- A message with one word of options is rejected. -/
theorem icmpProbeValidatePacket_options :
    Quotes (echoProbe 7) 0 (echoArgs 7) (echoExceeded 0 6 7) 0 (UInt32.ofNat (4 * 6 + 36)) ∧
      ((IcmpModule.echo.probe onesContext).probeValidatePacket (echoExceeded 0 6 7) 0
        (UInt32.ofNat (4 * 6 + 36)) 0 fun _ => 0).isSome = false :=
  ⟨echoExceeded_quotes (by decide) (by decide), by decide +kernel⟩

end Xmap.Probe
