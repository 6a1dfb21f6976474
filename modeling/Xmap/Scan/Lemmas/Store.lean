import Xmap.Scan.Lemmas.Network
import Xmap.Scan.Lemmas.Records
import Xmap.Shm.StreamTheorems
import Xmap.Task.Lemmas.Store

/-!
# What a scan stores

The ring accepts the records of the first answers in order, and the reading process takes them in the same order.
-/

namespace Xmap.Scan

open Xmap.Lib Xmap.Probe Xmap.Shm Xmap.Target Xmap.Task

/-! ## One record -/

/-- The stream loses nothing, and its writer is in order. -/
structure InOrder (conf : ShmConf) (t : Trace) : Prop where
  tight : t.Tight conf
  matched : ∃ a, t.Matches conf a

/-- The records that are put of those handed over. -/
def puttable (conf : ShmConf) (rs : List ShmRecord) : List ShmRecord := rs.filter fun r => ¬ TooLarge conf r

section
variable {conf : ShmConf} {t t' : Trace} {r : ShmRecord} {s s' : XmStore} {d : Delivery}

theorem puttable_append (rs qs : List ShmRecord) :
    puttable conf (rs ++ qs) = puttable conf rs ++ puttable conf qs := List.filter_append _ _

theorem InOrder.start (conf : ShmConf) (mem : Mem) : InOrder conf (conf.start mem) where
  tight := conf.start_tight mem (lt_of_lt_of_le (by decide) (conf.header_le.trans conf.fentrySize_le))
  matched := ⟨_, conf.start_matches mem⟩

theorem InOrder.read (h : InOrder conf t) : InOrder conf (t.step .read) where
  tight := h.tight.read
  matched := by
    obtain ⟨a, ha⟩ := h.matched
    have hop : Op.Sound conf .read := trivial
    obtain ⟨b, hb, -⟩ := ha.step hop
    exact ⟨b, hb⟩

theorem InOrder.flush (h : InOrder conf t) : InOrder conf (t.step .flush) where
  tight := h.tight.flush.1
  matched := by
    obtain ⟨a, ha⟩ := h.matched
    have hop : Op.Sound conf .flush := trivial
    obtain ⟨b, hb, -⟩ := ha.step hop
    exact ⟨b, hb⟩

theorem InOrder.put (h : InOrder conf t) (hr : conf.Sound r) : InOrder conf (t.step (.put r)) where
  tight := by
    by_cases hover : isRecordSizeOver t.sys.writer (entryRecordOf r)
    · rw [(Trace.put_over hover).1]
      exact h.tight
    · exact (h.tight.put hover).1
  matched := by
    obtain ⟨a, ha⟩ := h.matched
    have hop : Op.Sound conf (.put r) := hr
    obtain ⟨b, hb, -⟩ := ha.step hop
    exact ⟨b, hb⟩

theorem InOrder.reads (h : InOrder conf t) (n : Nat) :
    InOrder conf (readerRuns t n) ∧ (readerRuns t n).accepted = t.accepted := by
  induction n generalizing t with
  | zero => exact ⟨h, rfl⟩
  | succ n ih => exact ih h.read

/-- A put that returns has put its record once, unless it is too large. -/
theorem InOrder.record {reads : List Nat} (h : InOrder conf t) (hr : conf.Sound r)
    (hput : xmShmEntryRecordPut reads t r = some t') :
    InOrder conf t' ∧ t'.accepted = t.accepted ++ puttable conf [r] := by
  induction reads generalizing t with
  | nil => cases hput
  | cons n reads ih =>
    obtain ⟨hreads, haccepted⟩ := h.reads n
    simp only [xmShmEntryRecordPut] at hput
    by_cases hover : TooLarge conf r
    · obtain ⟨hstep, hrc⟩ := Trace.put_over ((Tight.tooLarge_iff hreads.tight).mpr hover)
      rw [hrc, hstep, if_neg (by decide), if_pos rfl] at hput
      cases hput
      refine ⟨hreads, ?_⟩
      rw [haccepted]
      simp [puttable, hover]
    · obtain ⟨-, hrc⟩ := hreads.tight.put (mt (Tight.tooLarge_iff hreads.tight).mp hover)
      have hnext := hreads.put hr
      have hgrown : ((readerRuns t n).step (.put r)).accepted =
          if (putOp (readerRuns t n).sys r).2 = 0 then (readerRuns t n).accepted ++ [r]
          else (readerRuns t n).accepted := rfl
      rcases hrc with ⟨hrc, -⟩ | hrc
      · rw [if_pos hrc] at hput hgrown
        cases hput
        refine ⟨hnext, ?_⟩
        rw [hgrown, haccepted]
        simp [puttable, hover]
      · rw [hrc, if_neg (by decide), if_neg (by decide)] at hput
        rw [hrc, if_neg (by decide)] at hgrown
        obtain ⟨hdone, hall⟩ := ih hnext hput
        exact ⟨hdone, by rw [hall, hgrown, haccepted]⟩

theorem InOrder.storeFlush (h : InOrder conf s.shm) (hr : conf.Sound r) (hs : xmStoreFlush s r d = some s') :
    InOrder conf s'.shm ∧ s'.shm.accepted = s.shm.accepted ++ puttable conf [r] := by
  unfold xmStoreFlush at hs
  split at hs
  · cases hs
  · next t hput =>
    obtain ⟨ht, haccepted⟩ := h.record hr hput
    obtain ⟨hreads, hsame⟩ := ht.reads d.flushReads
    cases hs
    unfold xstoreShmFlush
    dsimp only
    split
    · exact ⟨hreads.flush, hsame.trans haccepted⟩
    · exact ⟨hreads, hsame.trans haccepted⟩

end

/-! ## The packets of a run -/

/-- The receiver after some packets: it has seen their sources, and the ring has accepted the records of the first
packet of each source. -/
structure Stored (c : RecvContext) (conf : ShmConf) (fs : List Frame) (s : RecvSys) : Prop where
  seen : ∀ x, xmPbmCheck s.task.seen (ntohl x) = true ↔ x ∈ addresses c fs
  inOrder : InOrder conf s.store.shm
  accepted : s.store.shm.accepted = puttable conf ((firstFrames c fs).filterMap (recordOf c))

section
variable {c : RecvContext} {conf : ShmConf} {fs : List Frame} {f : Frame} {s t : RecvSys} {task : XmRecvTask}
    {d : Delivery}

/-- A packet is handed over exactly if it is the first one of its source. -/
theorem recvPacketHandle_handed (hfilter : c.filterDuplicates = true)
    (hseen : ∀ x, xmPbmCheck task.seen (ntohl x) = true ↔ x ∈ addresses c fs) :
    (recvPacketHandle c task f).2 = if isFirst c fs f then recordOf c f else none := by
  cases hv : validatePacket c f with
  | none =>
    have hfirst : isFirst c fs f = false := by simp [isFirst, address, hv]
    simp [recvPacketHandle_invalid hv, hfirst]
  | some v =>
    obtain ⟨x, validation⟩ := v
    have hfirst : isFirst c fs f = !xmPbmCheck task.seen (ntohl x) := by
      have hx := hseen x
      cases hr : xmPbmCheck task.seen (ntohl x) <;> simp_all [isFirst, address_eq hv]
    cases hr : xmPbmCheck task.seen (ntohl x) with
    | true => simp [recvPacketHandle_repeat hv hr, hfilter, hfirst, hr]
    | false => simp [recvPacketHandle_new hv hr, hfirst, hr, recordOf, hv]

theorem Stored.handle (h : Stored c conf fs s) (hfilter : c.filterDuplicates = true)
    (hsound : ∀ f r, recordOf c f = some r → conf.Sound r) (hd : handle c s d = some t) :
    Stored c conf (fs ++ [d.toFrame]) t := by
  obtain ⟨htask, hsome, hnone⟩ := handle_spec hd
  have hhanded := recvPacketHandle_handed (f := d.toFrame) hfilter h.seen
  have hseen (x : UInt32) : xmPbmCheck t.task.seen (ntohl x) = true ↔ x ∈ addresses c (fs ++ [d.toFrame]) := by
    rw [htask, recvPacketHandle_seen, h.seen, addresses_append_singleton, List.mem_append, Option.mem_toList, or_comm]
  rw [hhanded] at hsome hnone
  cases hfirst : isFirst c fs d.toFrame with
  | false =>
    rw [hfirst] at hnone
    have hstore : t.store = s.store := hnone (by simp)
    refine ⟨hseen, hstore ▸ h.inOrder, ?_⟩
    rw [hstore, firstFrames_append_singleton, hfirst, h.accepted]
    simp
  | true =>
    rw [hfirst, if_pos rfl] at hsome
    obtain ⟨r, hr⟩ : ∃ r, recordOf c d.toFrame = some r := by
      unfold isFirst at hfirst
      cases hv : validatePacket c d.toFrame with
      | none => simp [address, hv] at hfirst
      | some v => exact ⟨_, by rw [recordOf, hv]; rfl⟩
    obtain ⟨hstore, haccepted⟩ := h.inOrder.storeFlush (hsound _ r hr) (hsome r hr)
    refine ⟨hseen, hstore, ?_⟩
    rw [haccepted, h.accepted, firstFrames_append_singleton, hfirst, if_pos rfl, List.filterMap_append,
      puttable_append]
    simp [hr]

theorem Stored.receive {ds : List Delivery} (h : Stored c conf fs s) (hfilter : c.filterDuplicates = true)
    (hsound : ∀ f r, recordOf c f = some r → conf.Sound r) (hs : receive c ds s = some t) :
    Stored c conf (fs ++ ds.map Delivery.toFrame) t := by
  induction ds generalizing s fs with
  | nil =>
    cases hs
    rwa [List.map_nil, List.append_nil]
  | cons d ds ih =>
    rw [Task.receive] at hs
    cases hd : Task.handle c s d with
    | none => simp [hd] at hs
    | some u =>
      simp only [hd] at hs
      have hrest := ih (h.handle hfilter hsound hd) hs
      rwa [List.append_assoc] at hrest

end

end Xmap.Scan
