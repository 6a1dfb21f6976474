import Xmap.Task.RecvTask

/-!
# Packets one after another

What the receiver has seen after some packets, and which packet it stores next.
-/

namespace Xmap.Task

open Xmap.Lib Xmap.Probe Xmap.Shm

/-! ## Runs -/

/-- The receiver, with the records that it has handed to the store. -/
structure RecvRun where
  task : XmRecvTask
  handed : List ShmRecord

def RecvRun.step (context : RecvContext) (r : RecvRun) (f : Frame) : RecvRun :=
  let h := recvPacketHandle context r.task f
  ⟨h.1, r.handed ++ h.2.toList⟩

def recvFrames (context : RecvContext) (fs : List Frame) : RecvRun :=
  fs.foldl (RecvRun.step context) ⟨⟨xmPbmInit, xrecvInit⟩, []⟩

section
variable (context : RecvContext)

/-- The source address of a packet, after validation. -/
def address (f : Frame) : Option UInt32 := (validatePacket context f).map Prod.fst

def addresses (fs : List Frame) : List UInt32 := fs.filterMap (address context)

/-- The record of a packet. -/
def recordOf (f : Frame) : Option ShmRecord :=
  (validatePacket context f).map fun v => packedRecord context f v.2

/-- A valid packet whose address no earlier valid packet has. -/
def isFirst (earlier : List Frame) (f : Frame) : Bool :=
  match address context f with
  | none => false
  | some x => x ∉ addresses context earlier

def firstFrames (fs : List Frame) : List Frame :=
  (fs.zipIdx.filter fun p => isFirst context (fs.take p.2) p.1).map Prod.fst

end

section
variable {context : RecvContext} {fs : List Frame} {f : Frame} {x : UInt32}

theorem recvFrames_append_singleton :
    recvFrames context (fs ++ [f]) = (recvFrames context fs).step context f := by
  rw [recvFrames, List.foldl_append]
  rfl

theorem addresses_append_singleton :
    addresses context (fs ++ [f]) = addresses context fs ++ (address context f).toList := by
  rw [addresses, List.filterMap_append, addresses]
  cases h : address context f <;> simp [h]

theorem length_addresses_le : (addresses context fs).length ≤ fs.length := List.length_filterMap_le _ _

theorem firstFrames_append_singleton :
    firstFrames context (fs ++ [f]) =
      firstFrames context fs ++ if isFirst context fs f then [f] else [] := by
  have hold : fs.zipIdx.filter (fun p => isFirst context ((fs ++ [f]).take p.2) p.1) =
      fs.zipIdx.filter (fun p => isFirst context (fs.take p.2) p.1) := by
    refine List.filter_congr fun p hp => ?_
    have hlt : p.2 < fs.length := List.snd_lt_of_mem_zipIdx hp
    rw [List.take_append_of_le_length hlt.le]
  have hlast : (fs ++ [f]).take fs.length = fs := List.take_left' rfl
  rw [firstFrames, List.zipIdx_append, List.filter_append, hold, List.map_append, firstFrames]
  cases hf : isFirst context fs f <;> simp [hlast, hf]

/-! ## What is seen -/

theorem recvPacketHandle_invalid {task : XmRecvTask} (hv : validatePacket context f = none) :
    recvPacketHandle context task f =
      ({ task with xrecv := countInvalid context f task.xrecv }, none) := by
  rw [recvPacketHandle, hv]

theorem recvPacketHandle_repeat {task : XmRecvTask} {validation : Validation}
    (hv : validatePacket context f = some (x, validation))
    (hr : xmPbmCheck task.seen (ntohl x) = true) :
    recvPacketHandle context task f =
      if context.filterDuplicates = true then (⟨task.seen, countValid context f true task.xrecv⟩, none)
      else (⟨task.seen, { countValid context f true task.xrecv with
          filterSuccess := task.xrecv.filterSuccess + 1 }⟩,
        some (packedRecord context f validation)) := by
  simp [recvPacketHandle, hv, hr, countValid]

theorem recvPacketHandle_new {task : XmRecvTask} {validation : Validation}
    (hv : validatePacket context f = some (x, validation))
    (hr : xmPbmCheck task.seen (ntohl x) = false) :
    recvPacketHandle context task f =
      (⟨xmPbmSet task.seen (ntohl x), { countValid context f false task.xrecv with
          filterSuccess := task.xrecv.filterSuccess + 1 }⟩,
        some (packedRecord context f validation)) := by
  simp [recvPacketHandle, hv, hr, countValid]

/-- A packet that is not dropped, new or repeated. -/
theorem recvPacketHandle_stored {task : XmRecvTask} {validation : Validation}
    (hv : validatePacket context f = some (x, validation))
    (hr : ¬ (xmPbmCheck task.seen (ntohl x) = true ∧ context.filterDuplicates = true)) :
    recvPacketHandle context task f =
      ((recvPacketHandle context task f).1, some (packedRecord context f validation)) := by
  rw [← Bool.and_eq_true] at hr
  simp [recvPacketHandle, hv, hr]

theorem address_eq {validation : Validation} (hv : validatePacket context f = some (x, validation)) :
    address context f = some x := by rw [address, hv]; rfl

theorem recvPacketHandle_seen (task : XmRecvTask) (y : UInt32) :
    xmPbmCheck (recvPacketHandle context task f).1.seen (ntohl y) = true ↔
      address context f = some y ∨ xmPbmCheck task.seen (ntohl y) = true := by
  cases hv : validatePacket context f with
  | none => simp [recvPacketHandle_invalid hv, address, hv]
  | some v =>
    obtain ⟨x, validation⟩ := v
    rw [address_eq hv]
    cases hr : xmPbmCheck task.seen (ntohl x) with
    | false =>
      rw [recvPacketHandle_new hv hr, xmPbmCheck_set, ntohl_injective.eq_iff, Option.some.injEq,
        eq_comm]
    | true =>
      have hseen : (recvPacketHandle context task f).1.seen = task.seen := by
        rw [recvPacketHandle_repeat hv hr]
        split <;> rfl
      rw [hseen]
      constructor
      · exact Or.inr
      · rintro (hy | hy)
        · cases hy
          exact hr
        · exact hy

theorem RecvRun.step_seen {r : RecvRun}
    (h : ∀ y, xmPbmCheck r.task.seen (ntohl y) = true ↔ y ∈ addresses context fs) (y : UInt32) :
    xmPbmCheck (r.step context f).task.seen (ntohl y) = true ↔
      y ∈ addresses context (fs ++ [f]) := by
  rw [RecvRun.step, recvPacketHandle_seen, h, addresses_append_singleton, List.mem_append,
    Option.mem_toList, or_comm]

theorem recvFrames_seen (fs : List Frame) (y : UInt32) :
    xmPbmCheck (recvFrames context fs).task.seen (ntohl y) = true ↔ y ∈ addresses context fs := by
  induction fs using List.reverseRecOn generalizing y with
  | nil => simp [recvFrames, xmPbmCheck, xmPbmInit, addresses]
  | append_singleton fs f ih => rw [recvFrames_append_singleton, RecvRun.step_seen ih]

theorem recvPacketHandle_isFirst (h : isFirst context fs f = true) :
    (recvPacketHandle context (recvFrames context fs).task f).2 = recordOf context f := by
  unfold isFirst at h
  cases hv : validatePacket context f with
  | none => simp [address, hv] at h
  | some v =>
    obtain ⟨x, validation⟩ := v
    have hr : xmPbmCheck (recvFrames context fs).task.seen (ntohl x) = false := by
      rw [Bool.eq_false_iff, Ne, recvFrames_seen]
      simpa [address_eq hv] using h
    rw [recvPacketHandle_new hv hr, recordOf, hv]
    rfl

end

end Xmap.Task
