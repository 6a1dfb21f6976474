import Xmap.Scan.Lemmas.Store
import Xmap.Scan.RecordTheorems
import Xmap.Task.DedupTheorems

/-!
# Theorems on the records of a scan

Each recorded host has one record, of the first packet that was accepted for it, and the reading process gets the
records in their order.
-/

namespace Xmap.Scan

open Xmap.Lib Xmap.Probe Xmap.Shm Xmap.Target Xmap.Task

section
variable {c : RecvContext} {fs : List Frame} {context : ScanContext} {conf : ShmConf} {s t : ScanSys} {a : ScanAction}

/-! ## First packets -/

theorem recordOf_sound {f : Frame} {r : ShmRecord} (h : recordOf context.recv f = some r) : conf.Sound r := by
  obtain ⟨v, -, rfl⟩ := Option.map_eq_some_iff.mp h
  have hwithin : (packedRecord context.recv f v.2).data.length ≤ 42 * 17 := packedRecord_within context f v.2
  intro hlarge
  omega

theorem Stored.scanStep (h : Stored context.recv conf s.frames s.work.recv) (ht : scanStep context s a = some t) :
    Stored context.recv conf t.frames t.work.recv := by
  cases a with
  | tick time =>
    obtain ⟨w, hw, rfl⟩ := Option.map_eq_some_iff.mp ht
    exact (workStep_tick hw).2 ▸ h
  | sender i fuel inputs =>
    obtain ⟨w, hw, rfl⟩ := Option.map_eq_some_iff.mp ht
    obtain ⟨x, y, hstepped⟩ := workStep_sender hw
    unfold ScanSys.afterSend
    split <;> exact hstepped.recv ▸ h
  | network e =>
    obtain ⟨wire, -, rfl⟩ := Option.map_eq_some_iff.mp ht
    exact h
  | receiver arrivals =>
    obtain ⟨w, hw, rfl⟩ := Option.map_eq_some_iff.mp ht
    obtain ⟨recv, hrecv, -, hseen, hstore⟩ := workStep_receiver hw
    rw [deliver_arrived] at hrecv
    have hnext : Stored context.recv conf _ recv := h.receive rfl (fun _ _ hr => recordOf_sound hr) hrecv
    rw [List.map_map] at hnext
    exact ⟨hseen ▸ hnext.seen, hstore ▸ hnext.inOrder, hstore ▸ hnext.accepted⟩

end

end Xmap.Scan
