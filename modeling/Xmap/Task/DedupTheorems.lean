import Xmap.Task.Lemmas.Recv

/-!
# Theorems on repeated packets

The receiver counts the valid packets and their addresses, and hands on one record for each address.
-/

namespace Xmap.Task

open Xmap.Lib Xmap.Probe Xmap.Shm

/-- What the receiver has counted and handed on after the given packets. -/
structure Deduplicated (context : RecvContext) (fs : List Frame) (r : RecvRun) : Prop where
  success_total : r.task.xrecv.successTotal = r.task.xrecv.validationPassed
  validation_passed : r.task.xrecv.validationPassed.toNat = (addresses context fs).length
  success_unique : r.task.xrecv.successUnique.toNat = (addresses context fs).toFinset.card
  filter_success : r.task.xrecv.filterSuccess.toNat = (addresses context fs).toFinset.card
  bits : r.task.seen.bits.card = (addresses context fs).toFinset.card
  seen : ∀ x, xmPbmCheck r.task.seen (ntohl x) = true ↔ x ∈ addresses context fs
  handed : r.handed = (firstFrames context fs).filterMap (recordOf context)
  handed_nodup : (addresses context (firstFrames context fs)).Nodup
  handed_all : (addresses context (firstFrames context fs)).toFinset =
    (addresses context fs).toFinset
  cooldown_unique : r.task.xrecv.cooldownUnique ≤ r.task.xrecv.cooldownTotal
  cooldown_total : r.task.xrecv.cooldownTotal ≤ r.task.xrecv.successTotal

section
variable {context : RecvContext} {fs : List Frame} {f : Frame} {x : UInt32}

theorem add_one_toNat {v : UInt32} {n : Nat} (hv : v.toNat ≤ n) (hn : n + 1 < 2 ^ 32) :
    (v + 1).toNat = v.toNat + 1 := by
  rw [UInt32.toNat_add, UInt32.toNat_one, Nat.mod_eq_of_lt (by omega)]

theorem recvFrames_nil : Deduplicated context [] (recvFrames context []) where
  success_total := rfl
  validation_passed := rfl
  success_unique := rfl
  filter_success := rfl
  bits := by simp [recvFrames, xmPbmInit_bits, addresses]
  seen := recvFrames_seen []
  handed := rfl
  handed_nodup := List.nodup_nil
  handed_all := rfl
  cooldown_unique := UInt32.le_refl 0
  cooldown_total := UInt32.le_refl 0

theorem firstFrames_append_old (ha : ∀ x, address context f = some x → x ∈ addresses context fs) :
    firstFrames context (fs ++ [f]) = firstFrames context fs := by
  have hf : isFirst context fs f = false := by
    unfold isFirst
    cases hx : address context f with
    | none => rfl
    | some x => simpa using ha x hx
  rw [firstFrames_append_singleton, hf]
  simp

theorem firstFrames_append_new (ha : address context f = some x) (hx : x ∉ addresses context fs) :
    firstFrames context (fs ++ [f]) = firstFrames context fs ++ [f] := by
  have hf : isFirst context fs f = true := by simp [isFirst, ha, hx]
  rw [firstFrames_append_singleton, hf]
  rfl

theorem addresses_singleton (ha : address context f = some x) : addresses context [f] = [x] := by
  simp [addresses, ha]

theorem addresses_append (fs gs : List Frame) :
    addresses context (fs ++ gs) = addresses context fs ++ addresses context gs :=
  List.filterMap_append

theorem card_addresses_le : (addresses context fs).toFinset.card ≤ fs.length :=
  (List.toFinset_card_le _).trans length_addresses_le

/-- The counters of a valid packet whose cooldown counters were in order stay in order. -/
theorem countValid_cooldown {xrecv : XRecv} {isRepeat : Bool} {n : Nat}
    (hu : xrecv.cooldownUnique ≤ xrecv.cooldownTotal) (ht : xrecv.cooldownTotal ≤ xrecv.successTotal)
    (hs : xrecv.successTotal.toNat ≤ n) (hn : n + 1 < 2 ^ 32) :
    (countValid context f isRepeat xrecv).cooldownUnique ≤
        (countValid context f isRepeat xrecv).cooldownTotal ∧
      (countValid context f isRepeat xrecv).cooldownTotal ≤
        (countValid context f isRepeat xrecv).successTotal := by
  rw [UInt32.le_iff_toNat_le] at hu ht
  simp only [countValid, UInt32.le_iff_toNat_le, add_one_toNat hs hn]
  cases f.sendComplete with
  | false =>
    simp only [Bool.false_eq_true, if_false, Bool.false_and]
    omega
  | true =>
    simp only [if_true, Bool.true_and, add_one_toNat (ht.trans hs) hn]
    cases isRepeat with
    | false =>
      simp only [Bool.not_false, if_true, add_one_toNat ((hu.trans ht).trans hs) hn]
      omega
    | true =>
      simp only [Bool.not_true, Bool.false_eq_true, if_false]
      omega

/-! ## One packet -/

namespace Deduplicated

variable {r : RecvRun} {validation : Validation}

theorem passed_le (h : Deduplicated context fs r) :
    r.task.xrecv.validationPassed.toNat ≤ fs.length :=
  h.validation_passed.trans_le length_addresses_le

/-- A valid packet is counted. -/
theorem passed_valid (h : Deduplicated context fs r) (hlen : fs.length + 1 < 2 ^ 32)
    (ha : address context f = some x) :
    (r.task.xrecv.validationPassed + 1).toNat = (addresses context (fs ++ [f])).length := by
  rw [addresses_append, addresses_singleton ha, List.length_append, List.length_singleton,
    ← h.validation_passed]
  exact add_one_toNat h.passed_le hlen

theorem cooldown_valid (h : Deduplicated context fs r) (hlen : fs.length + 1 < 2 ^ 32)
    (isRepeat : Bool) :
    (countValid context f isRepeat r.task.xrecv).cooldownUnique ≤
        (countValid context f isRepeat r.task.xrecv).cooldownTotal ∧
      (countValid context f isRepeat r.task.xrecv).cooldownTotal ≤
        (countValid context f isRepeat r.task.xrecv).successTotal :=
  countValid_cooldown h.cooldown_unique h.cooldown_total
    ((congrArg UInt32.toNat h.success_total).trans_le h.passed_le) hlen

theorem step_invalid (h : Deduplicated context fs r) (hv : validatePacket context f = none) :
    Deduplicated context (fs ++ [f]) (r.step context f) := by
  have hseen := RecvRun.step_seen (f := f) h.seen
  have ha : address context f = none := by simp [address, hv]
  have hadd : addresses context (fs ++ [f]) = addresses context fs := by
    rw [addresses_append_singleton, ha]
    simp
  have hfirst : firstFrames context (fs ++ [f]) = firstFrames context fs :=
    firstFrames_append_old (by simp [ha])
  -- only `validation_failed` is written
  have hcount : countInvalid context f r.task.xrecv =
      { r.task.xrecv with
        validationFailed := (countInvalid context f r.task.xrecv).validationFailed } := by
    unfold countInvalid
    split <;> rfl
  simp only [RecvRun.step, recvPacketHandle_invalid hv] at hseen ⊢
  rw [hcount]
  constructor
  · exact h.success_total
  · rw [hadd]; exact h.validation_passed
  · rw [hadd]; exact h.success_unique
  · rw [hadd]; exact h.filter_success
  · rw [hadd]; exact h.bits
  · exact hseen
  · rw [hfirst]
    simpa using h.handed
  · rw [hfirst]; exact h.handed_nodup
  · rw [hfirst, hadd]; exact h.handed_all
  · exact h.cooldown_unique
  · exact h.cooldown_total

theorem step_repeat (h : Deduplicated context fs r) (hfilter : context.filterDuplicates = true)
    (hlen : fs.length + 1 < 2 ^ 32) (hv : validatePacket context f = some (x, validation))
    (hr : xmPbmCheck r.task.seen (ntohl x) = true) :
    Deduplicated context (fs ++ [f]) (r.step context f) := by
  have hseen := RecvRun.step_seen (f := f) h.seen
  have ha := address_eq hv
  have hmem : x ∈ addresses context fs := (h.seen x).mp hr
  have hset : (addresses context (fs ++ [f])).toFinset = (addresses context fs).toFinset := by
    rw [addresses_append, addresses_singleton ha, List.toFinset_append]
    simpa using hmem
  have hfirst : firstFrames context (fs ++ [f]) = firstFrames context fs := by
    refine firstFrames_append_old fun y hy => ?_
    rw [ha] at hy
    cases hy
    exact hmem
  simp only [RecvRun.step, recvPacketHandle_repeat hv hr, if_pos hfilter] at hseen ⊢
  constructor
  · exact congrArg (· + 1) h.success_total
  · exact h.passed_valid hlen ha
  · rw [hset]; exact h.success_unique
  · rw [hset]; exact h.filter_success
  · rw [hset]; exact h.bits
  · exact hseen
  · rw [hfirst]
    simpa using h.handed
  · rw [hfirst]; exact h.handed_nodup
  · rw [hfirst, hset]; exact h.handed_all
  · exact (h.cooldown_valid hlen true).1
  · exact (h.cooldown_valid hlen true).2

theorem step_new (h : Deduplicated context fs r) (hlen : fs.length + 1 < 2 ^ 32)
    (hv : validatePacket context f = some (x, validation))
    (hr : xmPbmCheck r.task.seen (ntohl x) = false) :
    Deduplicated context (fs ++ [f]) (r.step context f) := by
  have hseen := RecvRun.step_seen (f := f) h.seen
  have ha := address_eq hv
  have hmem : x ∉ addresses context fs := by
    rw [← h.seen x, hr]
    exact Bool.false_ne_true
  have hset : (addresses context (fs ++ [f])).toFinset = insert x (addresses context fs).toFinset := by
    rw [addresses_append, addresses_singleton ha, List.toFinset_append, Finset.union_comm]
    simp
  have hcard : (addresses context (fs ++ [f])).toFinset.card =
      (addresses context fs).toFinset.card + 1 := by
    rw [hset, Finset.card_insert_of_notMem (mt List.mem_toFinset.mp hmem)]
  have hfirst := firstFrames_append_new ha hmem
  have hrec : recordOf context f = some (packedRecord context f validation) := by
    rw [recordOf, hv]
    rfl
  have hbit : bitOf (ntohl x) ∉ r.task.seen.bits := by
    rw [← xmPbmCheck_iff, hr]
    exact Bool.false_ne_true
  -- the first frames have the addresses of all, so `x` is none of theirs
  have hnot : x ∉ addresses context (firstFrames context fs) := by
    rw [← List.mem_toFinset, h.handed_all, List.mem_toFinset]
    exact hmem
  simp only [RecvRun.step, recvPacketHandle_new hv hr] at hseen ⊢
  constructor
  · exact congrArg (· + 1) h.success_total
  · exact h.passed_valid hlen ha
  · rw [hcard, ← h.success_unique]
    exact add_one_toNat (h.success_unique.trans_le card_addresses_le) hlen
  · rw [hcard, ← h.filter_success]
    exact add_one_toNat (h.filter_success.trans_le card_addresses_le) hlen
  · rw [hcard, xmPbmSet_bits, Finset.card_insert_of_notMem hbit, h.bits]
  · exact hseen
  · rw [hfirst, List.filterMap_append, ← h.handed]
    simp [hrec]
  · rw [hfirst, addresses_append, addresses_singleton ha]
    exact List.nodup_append.mpr ⟨h.handed_nodup, List.nodup_singleton x,
      fun y hy z hz => by
        rw [List.mem_singleton.mp hz]
        rintro rfl
        exact hnot hy⟩
  · rw [hfirst, addresses_append, addresses_singleton ha, hset, List.toFinset_append, h.handed_all,
      Finset.union_comm]
    simp
  · exact (h.cooldown_valid hlen false).1
  · exact (h.cooldown_valid hlen false).2

theorem step (h : Deduplicated context fs r) (hfilter : context.filterDuplicates = true)
    (hlen : fs.length + 1 < 2 ^ 32) : Deduplicated context (fs ++ [f]) (r.step context f) := by
  cases hv : validatePacket context f with
  | none => exact h.step_invalid hv
  | some v =>
    cases hr : xmPbmCheck r.task.seen (ntohl v.1) with
    | true => exact h.step_repeat hfilter hlen hv hr
    | false => exact h.step_new hlen hv hr

end Deduplicated

/-- The counters, the bitmap and the records handed to the store after any packets. -/
theorem recvFrames_deduplicated (context : RecvContext) (hfilter : context.filterDuplicates = true)
    {fs : List Frame} (hlen : fs.length < 2 ^ 32) :
    Deduplicated context fs (recvFrames context fs) := by
  induction fs using List.reverseRecOn with
  | nil => exact recvFrames_nil
  | append_singleton fs f ih =>
    rw [List.length_append, List.length_singleton] at hlen
    rw [recvFrames_append_singleton]
    exact (ih (by omega)).step hfilter hlen

end

/-- Two answers of one host. -/
theorem recvFrames_deduplicated_pair :
    Deduplicated (portScan 0) (List.replicate 2 (frameOf (tcpAnswer 2 (TH_SYN ||| TH_ACK))))
      (recvFrames (portScan 0) (List.replicate 2 (frameOf (tcpAnswer 2 (TH_SYN ||| TH_ACK))))) :=
  recvFrames_deduplicated (portScan 0) rfl (by decide)

end Xmap.Task
