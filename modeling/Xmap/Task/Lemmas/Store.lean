import Xmap.Lib.WriteBehind
import Xmap.Shm.Lemmas.Pending
import Xmap.Shm.Lemmas.Refines
import Xmap.Task.RecvTask

/-!
# What a call of the store leaves pending

The store is a buffer with a timed flush: a call puts its record, unless it is too large, and flushes
when the timeout has passed.
-/

namespace Xmap.Task

open Xmap.Lib Xmap.Probe Xmap.Shm

/-- The test of `_is_record_size_over` on a record. -/
def TooLarge (conf : ShmConf) (r : ShmRecord) : Prop :=
  isRecordSizeOver (xmShmFormatCreate conf.fentrySize) (entryRecordOf r)

instance (conf : ShmConf) (r : ShmRecord) : Decidable (TooLarge conf r) :=
  inferInstanceAs (Decidable (isRecordSizeOver _ _))

variable {conf : ShmConf} {t t' : Trace} {s s' : XmStore} {r : ShmRecord} {d : Delivery}

theorem Tight.tooLarge_iff (h : t.Tight conf) :
    isRecordSizeOver t.sys.writer (entryRecordOf r) ↔ TooLarge conf r := by
  rw [TooLarge, isRecordSizeOver, isRecordSizeOver, h.entrySize]
  rfl

/-- The reading process takes nothing from what is pending, and adds nothing. -/
theorem readerRuns_spec (h : t.Tight conf) (n : Nat) :
    (readerRuns t n).Tight conf ∧ ((readerRuns t n).AllCommitted ↔ t.AllCommitted) := by
  induction n generalizing t with
  | zero => exact ⟨h, Iff.rfl⟩
  | succ n ih =>
    obtain ⟨htight, hall⟩ := ih h.read
    exact ⟨htight, hall⟩

/-- A put that returns leaves its record pending, unless the record is too large. -/
theorem xmShmEntryRecordPut_spec {reads : List Nat} (h : t.Tight conf)
    (hput : xmShmEntryRecordPut reads t r = some t') :
    t'.Tight conf ∧ (t'.AllCommitted ↔ TooLarge conf r ∧ t.AllCommitted) := by
  induction reads generalizing t with
  | nil => cases hput
  | cons n reads ih =>
    obtain ⟨hreads, hall⟩ := readerRuns_spec h n
    simp only [xmShmEntryRecordPut] at hput
    by_cases hover : TooLarge conf r
    · obtain ⟨hstep, hrc⟩ := Trace.put_over ((Tight.tooLarge_iff hreads).mpr hover)
      rw [hrc, hstep, if_neg (by decide), if_pos rfl] at hput
      cases hput
      exact ⟨hreads, hall.trans (and_iff_right hover).symm⟩
    · obtain ⟨hstep, ⟨hrc, hpending⟩ | hrc⟩ := hreads.put (mt (Tight.tooLarge_iff hreads).mp hover)
      · rw [if_pos hrc] at hput
        cases hput
        exact ⟨hstep, iff_of_false hpending fun hlarge => hover hlarge.1⟩
      · rw [hrc, if_neg (by decide), if_neg (by decide)] at hput
        obtain ⟨htight, hall'⟩ := ih hstep hput
        exact ⟨htight, hall'.trans (iff_of_false (fun hlarge => hover hlarge.1)
          fun hlarge => hover hlarge.1)⟩

/-- The store after the given calls, each with its time and whether it puts a record that is not too
large. -/
structure XmStore.After (conf : ShmConf) (timeout start : UInt64) (calls : List (UInt64 × Bool))
    (s : XmStore) : Prop where
  tight : s.shm.Tight conf
  flushTimeout : s.shmFlushTimeout = timeout
  lastTime : s.shmLastTime = lastFlush (FlushDue timeout) start (calls.map Prod.fst)
  allCommitted : s.shm.AllCommitted ↔ FlushesAll (FlushDue timeout) start calls

theorem XmStore.After.storeFlush {timeout start : UInt64} {calls : List (UInt64 × Bool)}
    (h : s.After conf timeout start calls) (hs : xmStoreFlush s r d = some s') :
    s'.After conf timeout start (calls ++ [(d.timems / 1000, !decide (TooLarge conf r))]) := by
  unfold xmStoreFlush at hs
  split at hs
  · cases hs
  · next t hput =>
    cases hs
    obtain ⟨hputTight, hputAll⟩ := xmShmEntryRecordPut_spec h.tight hput
    obtain ⟨htight, hall⟩ := readerRuns_spec hputTight d.flushReads
    simp only [xstoreShmFlush, h.flushTimeout, h.lastTime]
    have hmap : (calls ++ [(d.timems / 1000, !decide (TooLarge conf r))]).map Prod.fst =
        calls.map Prod.fst ++ [d.timems / 1000] := by simp
    by_cases hdue : FlushDue timeout (lastFlush (FlushDue timeout) start (calls.map Prod.fst))
        (d.timems / 1000)
    · rw [if_pos hdue]
      obtain ⟨hflush, hflushAll⟩ := htight.flush
      refine ⟨hflush, rfl, ?_, ?_⟩
      · rw [hmap, lastFlush_append_singleton, if_pos hdue]
      · exact iff_of_true hflushAll (flushesAll_append_singleton.mpr (Or.inl hdue))
    · rw [if_neg hdue]
      refine ⟨htight, rfl, ?_, ?_⟩
      · rw [hmap, lastFlush_append_singleton, if_neg hdue]
      · rw [flushesAll_append_singleton, or_iff_right hdue]
        refine hall.trans (hputAll.trans ?_)
        rw [h.allCommitted]
        simp

end Xmap.Task
