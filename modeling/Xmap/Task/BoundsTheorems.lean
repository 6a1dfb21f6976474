import Xmap.Probe.Lemmas.Reads
import Xmap.Task.RecvReads

/-!
# Theorems on the bounds of received packets

The checks of the header lengths cover most of what is read. They miss bytes of the ICMP header, the quoted
identifier behind a long outer header and the payload of the time module, and with IP packets the length is
that of the frame.
-/

namespace Xmap.Task

open Xmap.Lib Xmap.Probe Xmap.Shm

section
variable {context : RecvContext} {k : ProbeModule} {g : ProbeContext} {task : XmRecvTask} {f : Frame}

/-! ## Results -/

theorem run_readPackedRecord (hprobe : context.probe = k.probe g) (validation : Validation) :
    ((readPackedRecord context k f).run f.pktData).1 = packedRecord context f validation := by
  cases hip : context.sendIpPkts with
  | false =>
    simp only [readPackedRecord, packedRecord, processedPacket, hip, Bool.false_eq_true, if_false,
      Reads.run_bind, Reads.run_pure, run_readXmProbeIpStore, hprobe]
    rw [ProbeModule.run_readProcessPacket]
  | true =>
    simp only [readPackedRecord, packedRecord, processedPacket, hip, if_true, Reads.run_bind,
      Reads.run_pure, run_readXmProbeIpStore, hprobe, Reads.run_block]
    rw [ProbeModule.run_readProcessPacket]
    rfl

theorem run_readValidation (hprobe : context.probe = k.probe g)
    (hlong : ¬ f.pktLen < sizeofIp + context.dataLinkSize) :
    (readValidation context k g f).run f.pktData = validatePacket context f := by
  simp only [readValidation, validatePacket, if_neg hlong, Reads.run_bind, run_read32,
    ProbeModule.run_readValidatePacket, hprobe]
  rfl

theorem run_readAnswer_drop {srcIp : UInt32}
    (h : (xmPbmCheck task.seen (ntohl srcIp) && context.filterDuplicates) = true) :
    ((readAnswer context k task f srcIp).run f.pktData).written = [] := by
  simp only [readAnswer, h, if_true, Reads.run_bind, Reads.run_pure]

/-- With its reads as steps the handler does and returns the same. -/
theorem run_readRecvPacketHandle (hprobe : context.probe = k.probe g) :
    (((readRecvPacketHandle context k g task f).run f.pktData).task,
      ((readRecvPacketHandle context k g task f).run f.pktData).record) =
        recvPacketHandle context task f := by
  by_cases hshort : f.pktLen < sizeofIp + context.dataLinkSize
  · have hnone : validatePacket context f = none := by rw [validatePacket, if_pos hshort]
    simp only [readRecvPacketHandle, if_pos hshort, Reads.run_pure, recvPacketHandle, hnone, countInvalid]
  · simp only [readRecvPacketHandle, if_neg hshort, Reads.run_bind, run_readValidation hprobe hshort,
      recvPacketHandle]
    cases hv : validatePacket context f with
    | none => simp only [Reads.run_pure, countInvalid, if_neg hshort]
    | some r =>
      obtain ⟨srcIp, validation⟩ := r
      cases hdrop : xmPbmCheck task.seen (ntohl srcIp) && context.filterDuplicates with
      | true =>
        simp only [readAnswer, hdrop, if_true, Reads.run_bind, Reads.run_pure, run_read16]
        rfl
      | false =>
        simp only [readAnswer, hdrop, Bool.false_eq_true, if_false, Reads.run_bind, Reads.run_pure,
          run_read16, run_readPackedRecord hprobe validation]
        rfl

/-! ## Bounds -/

/-- The validation words for the addresses of the packet. -/
def frameValidation (context : RecvContext) (f : Frame) : Validation :=
  context.validateGen (ipDst f.pktData context.dataLinkSize) (ipSrc f.pktData context.dataLinkSize)

/-- The packet passes validation and is not dropped as a repeat. -/
def Stored (context : RecvContext) (task : XmRecvTask) (f : Frame) : Prop :=
  ∃ srcIp validation, validatePacket context f = some (srcIp, validation) ∧
    (xmPbmCheck task.seen (ntohl srcIp) && context.filterDuplicates) = false

/-- Every offset read is below the captured length, every offset written is one of `fake_eth_hdr`. -/
structure InBounds (context : RecvContext) (k : ProbeModule) (g : ProbeContext) (task : XmRecvTask)
    (f : Frame) : Prop where
  read : (readRecvPacketHandle context k g task f).Within f.pktData f.pktLen
  written : ∀ a ∈ ((readRecvPacketHandle context k g task f).run f.pktData).written, a < sizeofFakeEthHdr

theorem captured_frame (hlink : context.dataLinkSize = sizeofEtherHeader)
    (hlong : ¬ f.pktLen < sizeofIp + context.dataLinkSize) :
    Captured f.pktLen context.dataLinkSize (checkedLength context f) where
  header := by omega
  len_le := by
    have hle : (checkedLength context f).toNat ≤ f.pktLen := by
      rw [checkedLength, UInt32.toNat_ofNat']
      exact (Nat.mod_le _ _).trans (Nat.sub_le _ _)
    omega

theorem within_readValidation (hlink : context.dataLinkSize = sizeofEtherHeader)
    (hlong : ¬ f.pktLen < sizeofIp + context.dataLinkSize) :
    (readValidation context k g f).Within f.pktData f.pktLen ↔
      k.ChecksInside g f.pktData context.dataLinkSize f.pktLen (checkedLength context f)
        (frameValidation context f) := by
  have hcap := captured_frame hlink hlong
  have hheader := hcap.header
  rw [sizeofIp] at hheader
  simp only [readValidation, Reads.within_bind, within_read32, run_read32]
  refine ⟨fun h => (ProbeModule.within_readValidatePacket hcap).mp h.2.2, fun h => ?_⟩
  exact ⟨by omega, by omega, (ProbeModule.within_readValidatePacket hcap).mpr h⟩

/-- The copy of an IP packet starts 14 bytes into the frame and is as long as the frame. -/
theorem not_within_readPackedRecord (hlink : context.dataLinkSize = sizeofEtherHeader)
    (hip : context.sendIpPkts = true) (hpos : 0 < f.pktLen) (hlen : f.pktLen ≤ sizeofFakeEthHdr) :
    ¬ (readPackedRecord context k f).Within f.pktData f.pktLen := by
  intro h
  simp only [readPackedRecord, hip, if_true, Reads.within_bind, Reads.within_block, hlink,
    Nat.min_eq_left hlen] at h
  rw [sizeofEtherHeader] at h
  omega

theorem within_readPackedRecord (hlong : ¬ f.pktLen < sizeofIp + context.dataLinkSize)
    (hip : context.sendIpPkts = false) :
    (readPackedRecord context k f).Within f.pktData f.pktLen ↔
      (k.readProcessPacket context.packer 0).Within f.pktData f.pktLen := by
  have hstore : (readXmProbeIpStore context.packer context.probe.probeType
      context.dataLinkSize).Within f.pktData f.pktLen := within_readXmProbeIpStore (by omega)
  simp only [readPackedRecord, hip, Bool.false_eq_true, if_false, Reads.within_bind, Reads.within_pure,
    hstore, true_and, and_true]

theorem within_readAnswer {srcIp : UInt32} (hlong : ¬ f.pktLen < sizeofIp + context.dataLinkSize) :
    (readAnswer context k task f srcIp).Within f.pktData f.pktLen ↔
      ((xmPbmCheck task.seen (ntohl srcIp) && context.filterDuplicates) = false →
        (readPackedRecord context k f).Within f.pktData f.pktLen) := by
  rw [sizeofIp] at hlong
  simp only [readAnswer, Reads.within_bind, Reads.within_ite, Reads.within_pure, within_read16, and_true,
    Bool.not_eq_true]
  exact ⟨fun h => h.2.2, fun h => ⟨by omega, fun _ => trivial, h⟩⟩

theorem within_readRecvPacketHandle (hprobe : context.probe = k.probe g)
    (hlink : context.dataLinkSize = sizeofEtherHeader)
    (hlong : ¬ f.pktLen < sizeofIp + context.dataLinkSize) :
    (readRecvPacketHandle context k g task f).Within f.pktData f.pktLen ↔
      k.ChecksInside g f.pktData context.dataLinkSize f.pktLen (checkedLength context f)
        (frameValidation context f) ∧
      (Stored context task f → (readPackedRecord context k f).Within f.pktData f.pktLen) := by
  simp only [readRecvPacketHandle, if_neg hlong, Reads.within_bind, run_readValidation hprobe hlong,
    within_readValidation hlink hlong]
  refine and_congr_right fun _ => ?_
  cases hv : validatePacket context f with
  | none =>
    refine iff_of_true (Reads.within_pure _) ?_
    rintro ⟨srcIp, validation, hsome, _⟩
    exact absurd (hsome.symm.trans hv) (Option.some_ne_none _)
  | some r =>
    obtain ⟨srcIp, validation⟩ := r
    refine (within_readAnswer hlong).trans ⟨?_, ?_⟩
    · rintro h ⟨srcIp', validation', hsome, hkeep⟩
      obtain ⟨rfl, rfl⟩ := Prod.mk.inj (Option.some.inj (hv.symm.trans hsome))
      exact h hkeep
    · exact fun h hkeep => h ⟨srcIp, validation, hv, hkeep⟩

/-- The length checks cover everything that is read of the packet. -/
structure Covered (context : RecvContext) (k : ProbeModule) (g : ProbeContext) (task : XmRecvTask)
    (f : Frame) : Prop where
  checks : k.ChecksInside g f.pktData sizeofEtherHeader f.pktLen (checkedLength context f)
    (frameValidation context f)
  noCopy : Stored context task f → context.sendIpPkts = false
  payload : Stored context task f → k = .icmpEchoTime →
    icmpOfPacket f.pktData sizeofEtherHeader + 20 ≤ f.pktLen

theorem validatePacket_probe {r : UInt32 × Validation} (hprobe : context.probe = k.probe g)
    (hlong : ¬ f.pktLen < sizeofIp + context.dataLinkSize) (h : validatePacket context f = some r) :
    (k.probe g).probeValidatePacket f.pktData context.dataLinkSize (checkedLength context f)
      (ipSrc f.pktData context.dataLinkSize) (frameValidation context f) = some r := by
  rw [validatePacket, if_neg hlong, hprobe] at h
  exact h

theorem checkedLength_frame (hlong : ¬ f.pktLen < sizeofIp + sizeofEtherHeader)
    (hip : context.sendIpPkts = false) : (checkedLength context f).toNat + ipHeader 0 ≤ f.pktLen := by
  have hle : (checkedLength context f).toNat ≤ f.pktLen - sizeofEtherHeader := by
    simp only [checkedLength, hip, Bool.false_eq_true, if_false, UInt32.toNat_ofNat']
    exact Nat.mod_le _ _
  rw [ipHeader]
  omega

theorem within_process_iff (hprobe : context.probe = k.probe g)
    (hlink : context.dataLinkSize = sizeofEtherHeader)
    (hlong : ¬ f.pktLen < sizeofIp + context.dataLinkSize) (hip : context.sendIpPkts = false)
    (hchecks : k.ChecksInside g f.pktData context.dataLinkSize f.pktLen (checkedLength context f)
      (frameValidation context f)) (hs : Stored context task f) :
    (readPackedRecord context k f).Within f.pktData f.pktLen ↔
      (k = .icmpEchoTime → icmpOfPacket f.pktData sizeofEtherHeader + 20 ≤ f.pktLen) := by
  have hheader : ipHeader 0 = sizeofEtherHeader := Nat.zero_add _
  obtain ⟨srcIp, validation, hsome, _⟩ := hs
  have hvalid := validatePacket_probe hprobe hlong hsome
  rw [within_readPackedRecord hlong hip]
  rw [hlink, ← hheader] at hvalid hchecks
  rw [hlink] at hlong
  rw [← hheader]
  exact ProbeModule.within_readProcessPacket (checkedLength_frame hlong hip) hchecks hvalid

theorem written_of_noCopy (hprobe : context.probe = k.probe g)
    (h : Stored context task f → context.sendIpPkts = false) :
    ((readRecvPacketHandle context k g task f).run f.pktData).written = [] := by
  by_cases hshort : f.pktLen < sizeofIp + context.dataLinkSize
  · simp only [readRecvPacketHandle, if_pos hshort, Reads.run_pure]
  · simp only [readRecvPacketHandle, if_neg hshort, Reads.run_bind, run_readValidation hprobe hshort]
    cases hv : validatePacket context f with
    | none => rfl
    | some r =>
      obtain ⟨srcIp, validation⟩ := r
      cases hdrop : xmPbmCheck task.seen (ntohl srcIp) && context.filterDuplicates with
      | true => exact run_readAnswer_drop hdrop
      | false =>
        have hip := h ⟨srcIp, validation, hv, hdrop⟩
        simp only [readAnswer, hdrop, readPackedRecord, hip, Bool.false_eq_true, if_false, Reads.run_bind,
          Reads.run_pure]

/-- All reads and writes of a call are in bounds exactly if the length checks cover them. -/
theorem recvPacketHandle_inBounds_iff (hprobe : context.probe = k.probe g)
    (hlink : context.dataLinkSize = sizeofEtherHeader) (hlen : f.pktLen ≤ 65535) :
    InBounds context k g task f ↔
      (sizeofIp + sizeofEtherHeader ≤ f.pktLen → Covered context k g task f) := by
  by_cases hshort : f.pktLen < sizeofIp + context.dataLinkSize
  · refine iff_of_true ⟨?_, ?_⟩ fun hlong => ?_
    · simp only [readRecvPacketHandle, if_pos hshort, Reads.within_pure]
    · simp only [readRecvPacketHandle, if_pos hshort, Reads.run_pure]
      exact List.forall_mem_nil _
    · rw [hlink] at hshort
      exact absurd hshort (Nat.not_lt.mpr hlong)
  have hlong : sizeofIp + sizeofEtherHeader ≤ f.pktLen := by
    rw [hlink] at hshort
    exact Nat.not_lt.mp hshort
  have hpos : 0 < f.pktLen := by
    rw [sizeofIp] at hlong
    omega
  have hwithin : (readRecvPacketHandle context k g task f).Within f.pktData f.pktLen ↔ _ :=
    within_readRecvPacketHandle hprobe hlink hshort
  constructor
  · rintro ⟨hread, _⟩ _
    obtain ⟨hchecks, hrecord⟩ := hwithin.mp hread
    have hcopy (hs : Stored context task f) : context.sendIpPkts = false := by
      by_contra hip
      exact not_within_readPackedRecord hlink (Bool.not_eq_false _ ▸ hip) hpos hlen (hrecord hs)
    refine ⟨hlink ▸ hchecks, hcopy, fun hs => ?_⟩
    exact (within_process_iff hprobe hlink hshort (hcopy hs) hchecks hs).mp (hrecord hs)
  · intro hc
    obtain ⟨hchecks, hcopy, hpayload⟩ := hc hlong
    rw [← hlink] at hchecks
    refine ⟨hwithin.mpr ⟨hchecks, fun hs => ?_⟩, ?_⟩
    · exact (within_process_iff hprobe hlink hshort (hcopy hs) hchecks hs).mpr (hpayload hs)
    · rw [written_of_noCopy hprobe hcopy]
      exact List.forall_mem_nil _

/-- In bounds, the bytes behind the captured ones do not matter. -/
theorem recvPacketHandle_captured (hprobe : context.probe = k.probe g)
    (h : InBounds context k g task f) {p : Mem} (hp : ∀ a < f.pktLen, p a = f.pktData a) :
    recvPacketHandle context task { f with pktData := p } = recvPacketHandle context task f := by
  have hrun : (readRecvPacketHandle context k g task f).run p =
      (readRecvPacketHandle context k g task f).run f.pktData := h.read.run_eq hp
  have hsame : readRecvPacketHandle context k g task { f with pktData := p } =
      readRecvPacketHandle context k g task f := rfl
  rw [← run_readRecvPacketHandle hprobe, ← run_readRecvPacketHandle hprobe, hsame, hrun]

theorem written_of_copy (hprobe : context.probe = k.probe g) (hs : Stored context task f)
    (hip : context.sendIpPkts = true) :
    ((readRecvPacketHandle context k g task f).run f.pktData).written =
      List.range' sizeofEtherHeader (min f.pktLen sizeofFakeEthHdr) := by
  obtain ⟨srcIp, validation, hsome, hkeep⟩ := hs
  have hlong : ¬ f.pktLen < sizeofIp + context.dataLinkSize := by
    intro hshort
    rw [validatePacket, if_pos hshort] at hsome
    exact absurd hsome (Option.some_ne_none _).symm
  simp only [readRecvPacketHandle, if_neg hlong, Reads.run_bind, run_readValidation hprobe hlong, hsome,
    readAnswer, hkeep, readPackedRecord, hip, Bool.false_eq_true, if_false, if_true, Reads.run_pure]

/-- The copy of an IP packet stays in `fake_eth_hdr` up to 14 bytes less than its size. -/
theorem recvPacketHandle_written_iff (hprobe : context.probe = k.probe g) :
    (∀ a ∈ ((readRecvPacketHandle context k g task f).run f.pktData).written, a < sizeofFakeEthHdr) ↔
      (Stored context task f → context.sendIpPkts = true →
        f.pktLen + sizeofEtherHeader ≤ sizeofFakeEthHdr) := by
  by_cases hcopy : Stored context task f ∧ context.sendIpPkts = true
  · obtain ⟨hs, hip⟩ := hcopy
    rw [written_of_copy hprobe hs hip]
    simp only [List.mem_range'_1, sizeofEtherHeader, sizeofFakeEthHdr]
    refine ⟨fun h _ _ => ?_, fun h a ha => ?_⟩
    · have := h (14 + (min f.pktLen 65535 - 1))
      omega
    · have := h hs hip
      omega
  · rw [written_of_noCopy hprobe fun hs => Bool.eq_false_iff.mpr fun hip => hcopy ⟨hs, hip⟩]
    exact iff_of_true (List.forall_mem_nil _) fun hs hip => absurd ⟨hs, hip⟩ hcopy

end

/-! ## Packets that are read past their end -/

/-- A scan of port 80 from port 1000 with validation words that are all 0. -/
def zeroContext : ProbeContext := ⟨80, 1000, 1000, 1, fun _ _ _ => 0⟩

def moduleScan (k : ProbeModule) (sendIpPkts : Bool) : RecvContext where
  probe := k.probe zeroContext
  validateGen := zeroContext.validateGen
  packer := msgpackPacker
  dataLinkSize := sizeofEtherHeader
  sendIpPkts := sendIpPkts
  filterDuplicates := true
  maxResults := 0
  cooldownSecs := 8

/-- An echo reply of which only the first 5 bytes are captured. -/
def cutReply : List UInt8 :=
  List.replicate 14 0 ++
    [0x45, 0, 0, 28, 0, 7, 0, 0, 64, 1, 0, 0, 10, 0, 0, 2, 10, 0, 0, 1] ++ [0, 0, 0, 0, 0]

theorem recvPacketHandle_inBounds_iff_reply :
    InBounds (moduleScan .icmpEcho false) .icmpEcho zeroContext ⟨xmPbmInit, xrecvInit⟩ (frameOf cutReply) ↔
      (sizeofIp + sizeofEtherHeader ≤ (frameOf cutReply).pktLen →
        Covered (moduleScan .icmpEcho false) .icmpEcho zeroContext ⟨xmPbmInit, xrecvInit⟩
          (frameOf cutReply)) :=
  recvPacketHandle_inBounds_iff rfl rfl (by decide)

/-- The sequence number of the cut reply stands behind its end. -/
theorem recvPacketHandle_overread :
    ¬ InBounds (moduleScan .icmpEcho false) .icmpEcho zeroContext ⟨xmPbmInit, xrecvInit⟩
      (frameOf cutReply) := by
  intro h
  have hread := (within_readRecvPacketHandle rfl rfl (by decide)).mp h.read
  exact absurd (hread.1 (by decide) (by decide)).1 (by decide)

end Xmap.Task
