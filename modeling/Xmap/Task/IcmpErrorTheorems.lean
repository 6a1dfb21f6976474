import Xmap.Probe.IcmpTheorems
import Xmap.Task.Lemmas.Recv

/-!
# Theorems on the targets of ICMP errors

An error message counts for the address that it is sent to, which is the sender of the quoted probe, and
not for the target of the probe.
-/

namespace Xmap.Task

open Xmap.Lib Xmap.Probe Xmap.Shm

section
variable (context : RecvContext)

/-- A valid packet that is an error message. -/
def IsErrorFrame (f : Frame) : Prop :=
  (validatePacket context f).isSome = true ∧ isIcmpError f.pktData context.dataLinkSize

instance (f : Frame) : Decidable (IsErrorFrame context f) := inferInstanceAs (Decidable (_ ∧ _))

/-- The target of the probe that an error message quotes. -/
def quotedTarget (f : Frame) : UInt32 := ipDst f.pktData (ipInner f.pktData context.dataLinkSize)

/-- The target that a valid packet is about. -/
def target (f : Frame) : Option UInt32 :=
  if IsErrorFrame context f then some (quotedTarget context f) else address context f

/-- Every error message counts for its target, and is stored if it is the first packet about it. -/
structure ErrorsAttributed (fs : List Frame) : Prop where
  address : ∀ f ∈ fs, IsErrorFrame context f → address context f = some (quotedTarget context f)
  stored : ∀ earlier f later, fs = earlier ++ f :: later → IsErrorFrame context f →
    quotedTarget context f ∉ earlier.filterMap (target context) →
    (recvPacketHandle context (recvFrames context earlier).task f).2 = recordOf context f

end

section
variable {context : RecvContext} {fs : List Frame} {f : Frame}

theorem icmpWordsValid_fst {id seq : UInt16} {sip x : UInt32} {validation validation' : Validation}
    (h : icmpWordsValid id seq sip validation = some (x, validation')) : x = sip := by
  unfold icmpWordsValid at h
  split at h
  · cases h
  · split at h
    · cases h
    · cases h
      rfl

theorem icmpValidatePacket_fst {g : ProbeContext} {m : Mem} {ip : Nat} {len sip x : UInt32}
    {validation validation' : Validation} (herror : isIcmpError m ip)
    (h : icmpValidatePacket g m ip len sip validation = some (x, validation')) : x = ipDst m ip := by
  unfold icmpValidatePacket at h
  rw [if_pos herror] at h
  split at h
  · cases h
  · split at h
    · cases h
    · split at h
      · cases h
      · split at h
        · cases h
        · exact icmpWordsValid_fst h

/-- An error message counts for its own destination. -/
theorem address_of_isErrorFrame {k : IcmpModule} {g : ProbeContext} (hprobe : context.probe = k.probe g)
    (h : IsErrorFrame context f) : address context f = some (ipDst f.pktData context.dataLinkSize) := by
  obtain ⟨hvalid, herror⟩ := h
  obtain ⟨⟨x, validation⟩, hv⟩ := Option.isSome_iff_exists.mp hvalid
  rw [address_eq hv, Option.some.injEq]
  unfold validatePacket at hv
  split at hv
  · cases hv
  · rw [hprobe, k.probe_validatePacket] at hv
    exact icmpValidatePacket_fst herror hv

/-- The errors are attributed to their targets if and only if each one quotes a probe to the address that
it is sent to. -/
theorem errorsAttributed_iff {k : IcmpModule} {g : ProbeContext} (hprobe : context.probe = k.probe g)
    (fs : List Frame) : ErrorsAttributed context fs ↔
      ∀ f ∈ fs, IsErrorFrame context f →
        ipDst f.pktData context.dataLinkSize = quotedTarget context f := by
  constructor
  · intro h f hf herror
    have haddress := h.address f hf herror
    rw [address_of_isErrorFrame hprobe herror, Option.some.injEq] at haddress
    exact haddress
  · intro h
    have haddress : ∀ f ∈ fs, IsErrorFrame context f →
        address context f = some (quotedTarget context f) := by
      intro f hf herror
      rw [address_of_isErrorFrame hprobe herror, h f hf herror]
    refine ⟨haddress, ?_⟩
    rintro earlier f later rfl herror hnew
    have htarget : earlier.filterMap (target context) = addresses context earlier := by
      refine List.filterMap_congr fun e he => ?_
      unfold target
      split
      · next h => exact (haddress e (List.mem_append_left _ he) h).symm
      · rfl
    refine recvPacketHandle_isFirst ?_
    rw [isFirst, haddress f (by simp) herror]
    simpa [htarget] using hnew

end

/-! ## Errors that quote probes to two targets -/

def echoScan : RecvContext where
  probe := IcmpModule.echo.probe onesContext
  validateGen := onesContext.validateGen
  packer := msgpackPacker
  dataLinkSize := sizeofEtherHeader
  sendIpPkts := false
  filterDuplicates := true
  maxResults := 0
  cooldownSecs := 8

/-- The packet that quotes the probe to a target. -/
def errorFrame (dip : UInt32) : Frame := ⟨echoExceeded 14 5 dip, 70, false, fun _ => 0⟩

theorem errorsAttributed_iff_self : ErrorsAttributed echoScan [errorFrame 0x0100000A] ↔
    ∀ f ∈ [errorFrame 0x0100000A], IsErrorFrame echoScan f →
      ipDst f.pktData echoScan.dataLinkSize = quotedTarget echoScan f :=
  have hprobe : echoScan.probe = IcmpModule.echo.probe onesContext := rfl
  errorsAttributed_iff hprobe _

theorem errorFrame_quotes (dip : UInt32) : Quotes (echoProbe dip) 0 (echoArgs dip)
    (errorFrame dip).pktData sizeofEtherHeader (UInt32.ofNat (4 * 5 + 36)) :=
  echoExceeded_quotes (show 5 ≤ 5 by decide) (by decide)

/-- Of two valid messages that quote probes to two targets, the second is not stored. -/
theorem errorFrames_second_dropped :
    (∀ dip, Quotes (echoProbe dip) 0 (echoArgs dip) (errorFrame dip).pktData sizeofEtherHeader
        (UInt32.ofNat (4 * 5 + 36))) ∧
      IsErrorFrame echoScan (errorFrame 7) ∧ IsErrorFrame echoScan (errorFrame 8) ∧
      quotedTarget echoScan (errorFrame 7) = 7 ∧ quotedTarget echoScan (errorFrame 8) = 8 ∧
      (recvFrames echoScan [errorFrame 7, errorFrame 8]).handed.length = 1 := by
  refine ⟨errorFrame_quotes, ?_, ?_, ?_, ?_, ?_⟩
  all_goals decide +kernel

end Xmap.Task
