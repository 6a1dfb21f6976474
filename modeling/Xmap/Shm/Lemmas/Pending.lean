import Xmap.Shm.Stream

/-!
# What is accepted and not committed

Whatever the records are, a put that accepts one leaves it uncommitted, and a flush commits all. A ring without
entries accepts nothing.
-/

namespace Xmap.Shm

open Xmap.Lib

/-- Every record of which the put returned 0 is in a committed chunk. -/
def Trace.AllCommitted (t : Trace) : Prop := t.committed = t.accepted.length

/-- Without a chunk of the writer nothing is pending; its chunk is behind the place of its header. -/
structure Trace.Tight (conf : ShmConf) (t : Trace) : Prop where
  committed_le : t.committed ≤ t.accepted.length
  allCommitted : t.sys.writer.hasHeader = false → t.AllCommitted
  started : t.sys.writer.hasHeader = true →
    t.sys.writer.curHeader.bfmt.start < t.sys.writer.curHeader.bfmt.pos
  entrySize : t.sys.writer.entrySize = conf.fentrySize % 2 ^ 32
  shmEntrySize : 0 < t.sys.shared.header.shmEntrySize

section
variable {conf : ShmConf} {sh : Shared} {fmt : XmShmFormat} {t : Trace} {r : ShmRecord}

/-! ## One operation of the format -/

theorem addCount_true_ne (v : Nat) : addCount true v ≠ v := by
  rw [addCount, if_pos rfl]
  omega

theorem xmShmEntryPosUpdate_shmEntrySize (mh : XmShmHeader) (isWrite : Bool) :
    (xmShmEntryPosUpdate mh isWrite).shmEntrySize = mh.shmEntrySize := by
  simp only [xmShmEntryPosUpdate, XmShmHeader.stepPos]
  split <;> rfl

theorem commitCurHeader_of_hasHeader (h : fmt.hasHeader = true) :
    (commitCurHeader sh fmt).1.header = xmShmEntryPosUpdate sh.header true := by
  simp only [commitCurHeader, h, if_true, shmEntryHeaderCommit, xmShmEntryCommit]

theorem commitCurHeader_of_not_hasHeader (h : fmt.hasHeader = false) :
    commitCurHeader sh fmt = (sh, fmt) := by
  simp [commitCurHeader, h]

theorem commitCurHeader_entrySize : (commitCurHeader sh fmt).2.entrySize = fmt.entrySize := by
  simp only [commitCurHeader]
  split <;> rfl

theorem commitCurHeader_hasHeader : (commitCurHeader sh fmt).2.hasHeader = false := by
  simp only [commitCurHeader]
  split
  · rfl
  · next h => exact Bool.eq_false_iff.mpr h

theorem xmBfSkip_start {bf : XmBinFormat} {n : Nat} : (xmBfSkip bf n).start = bf.start := by
  simp only [xmBfSkip]
  split <;> rfl

theorem xmBfSkip_pos {start size n : Nat} (hn : 0 < n) (hs : 0 < size) :
    start < (xmBfSkip (xmBfInit start (start + size)) n).pos := by
  simp only [xmBfSkip]
  split
  · show start < start + size
    omega
  · show start < start + n
    omega

theorem shmEntryHeaderCreate_of_none (h : xmShmEntryGet (commitCurHeader sh fmt).1.header true = none) :
    shmEntryHeaderCreate sh fmt = ((commitCurHeader sh fmt).1, (commitCurHeader sh fmt).2, false) := by
  simp only [shmEntryHeaderCreate, h]

theorem shmEntryHeaderCreate_of_some {entry : XmShmEntry}
    (h : xmShmEntryGet (commitCurHeader sh fmt).1.header true = some entry) :
    shmEntryHeaderCreate sh fmt = ((commitCurHeader sh fmt).1,
      { (commitCurHeader sh fmt).2 with
        curHeader := shmEntryHeaderInit { (commitCurHeader sh fmt).2.curHeader with shmEntry := entry }
        hasHeader := true }, true) := by
  simp only [shmEntryHeaderCreate, h]

theorem shmEntryHeaderCreate_succeeds :
    (shmEntryHeaderCreate sh fmt).2.2 = !xmShmFull (commitCurHeader sh fmt).1.header := by
  cases hfull : xmShmFull (commitCurHeader sh fmt).1.header with
  | false =>
    have hget : xmShmEntryGet (commitCurHeader sh fmt).1.header true = some _ :=
      if_pos (by simp [shmEntryCanGet, hfull])
    rw [shmEntryHeaderCreate_of_some hget, Bool.not_false]
  | true =>
    have hget : xmShmEntryGet (commitCurHeader sh fmt).1.header true = none :=
      if_neg (by simp [shmEntryCanGet, hfull])
    rw [shmEntryHeaderCreate_of_none hget, Bool.not_true]

theorem commitCurHeader_shmEntrySize (sh : Shared) (fmt : XmShmFormat) :
    (commitCurHeader sh fmt).1.header.shmEntrySize = sh.header.shmEntrySize := by
  cases hh : fmt.hasHeader with
  | false => rw [commitCurHeader_of_not_hasHeader hh]
  | true => rw [commitCurHeader_of_hasHeader hh, xmShmEntryPosUpdate_shmEntrySize]

theorem xmShmEntryGet_size {mh : XmShmHeader} {isWrite : Bool} {entry : XmShmEntry}
    (h : xmShmEntryGet mh isWrite = some entry) : entry.finish = entry.start + mh.shmEntrySize := by
  unfold xmShmEntryGet at h
  split at h
  · cases h
    rfl
  · cases h

/-- What `_shm_entry_header_create` does: it commits a chunk if there is one, and starts one if it
succeeds. -/
structure Creates (sh : Shared) (fmt : XmShmFormat) (c : Shared × XmShmFormat × Bool) : Prop where
  count : c.1.header.shmEntriesCountCur ≠ sh.header.shmEntriesCountCur ↔ fmt.hasHeader = true
  hasHeader : c.2.1.hasHeader = c.2.2
  started : c.2.2 = true → c.2.1.curHeader.bfmt.start < c.2.1.curHeader.bfmt.pos
  entrySize : c.2.1.entrySize = fmt.entrySize
  shmEntrySize : c.1.header.shmEntrySize = sh.header.shmEntrySize

theorem shmEntryHeaderCreate_creates (hs : 0 < sh.header.shmEntrySize) :
    Creates sh fmt (shmEntryHeaderCreate sh fmt) := by
  have hsize := commitCurHeader_shmEntrySize sh fmt
  have hcount : (commitCurHeader sh fmt).1.header.shmEntriesCountCur ≠
      sh.header.shmEntriesCountCur ↔ fmt.hasHeader = true := by
    cases hh : fmt.hasHeader with
    | false => simp [commitCurHeader_of_not_hasHeader hh]
    | true =>
      rw [commitCurHeader_of_hasHeader hh]
      exact iff_of_true (addCount_true_ne _) rfl
  cases hg : xmShmEntryGet (commitCurHeader sh fmt).1.header true with
  | none =>
    rw [shmEntryHeaderCreate_of_none hg]
    exact ⟨hcount, commitCurHeader_hasHeader, nofun, commitCurHeader_entrySize, hsize⟩
  | some entry =>
    have hentry := xmShmEntryGet_size hg
    rw [hsize] at hentry
    rw [shmEntryHeaderCreate_of_some hg]
    refine ⟨hcount, rfl, fun _ => ?_, commitCurHeader_entrySize, hsize⟩
    simp only [shmEntryHeaderInit, xmBfSkip_start, hentry]
    exact xmBfSkip_pos (by decide) hs

section
variable {record : XmShmEntryRecord}

theorem shmRecordWrite_header : (shmRecordWrite sh fmt record).1.header = sh.header := by
  simp only [shmRecordWrite]

theorem shmRecordWrite_hasHeader : (shmRecordWrite sh fmt record).2.hasHeader = fmt.hasHeader := by
  simp only [shmRecordWrite]

theorem shmRecordWrite_entrySize : (shmRecordWrite sh fmt record).2.entrySize = fmt.entrySize := by
  simp only [shmRecordWrite]

theorem shmRecordWrite_bfmt : (shmRecordWrite sh fmt record).2.curHeader.bfmt =
    (recordWrites (sh.mem, fmt.curHeader.bfmt) record).2 := by
  simp only [shmRecordWrite]

end

/-- A write never moves a buffer back. -/
def Onward (w w' : Mem × XmBinFormat) : Prop := w'.2.start = w.2.start ∧ w.2.pos ≤ w'.2.pos

theorem Onward.refl (w : Mem × XmBinFormat) : Onward w w := ⟨rfl, le_rfl⟩

theorem Onward.trans {w w' w'' : Mem × XmBinFormat} (h : Onward w w') (h' : Onward w' w'') :
    Onward w w'' := ⟨h'.1.trans h.1, h.2.trans h'.2⟩

theorem doWrite_onward (w : Mem × XmBinFormat) (bs : List UInt8) : Onward w (doWrite w bs) :=
  ⟨rfl, Nat.le_add_right _ _⟩

theorem xmBfValueWrite_onward (sz v : Nat) (w : Mem × XmBinFormat) :
    Onward w (xmBfValueWrite sz w v) := by
  rw [xmBfValueWrite]
  split
  · exact Onward.refl w
  · exact doWrite_onward w _

theorem xmBfBytesWrite_onward (w : Mem × XmBinFormat) (bs : List UInt8) :
    Onward w (xmBfBytesWrite w bs) := by
  rw [xmBfBytesWrite]
  split
  · exact Onward.refl w
  · exact (xmBfValueWrite_onward 8 bs.length w).trans (doWrite_onward _ bs)

theorem recordWrites_onward (w : Mem × XmBinFormat) (record : XmShmEntryRecord) :
    Onward w (recordWrites w record) :=
  (((xmBfValueWrite_onward 4 _ w).trans (xmBfValueWrite_onward 4 _ _)).trans
    ((xmBfValueWrite_onward 1 _ _).trans (xmBfValueWrite_onward 4 _ _))).trans
      (xmBfBytesWrite_onward _ _)

theorem shmRecordWrite_started {record : XmShmEntryRecord}
    (h : fmt.curHeader.bfmt.start < fmt.curHeader.bfmt.pos) :
    (shmRecordWrite sh fmt record).2.curHeader.bfmt.start <
      (shmRecordWrite sh fmt record).2.curHeader.bfmt.pos := by
  obtain ⟨hstart, hpos⟩ := recordWrites_onward (sh.mem, fmt.curHeader.bfmt) record
  rw [shmRecordWrite_bfmt, hstart]
  exact lt_of_lt_of_le h hpos

/-! ## One operation of a run -/

theorem ShmConf.start_tight (conf : ShmConf) (mem : Mem)
    (hs : 0 < (conf.start mem).sys.shared.header.shmEntrySize) : (conf.start mem).Tight conf where
  committed_le := Nat.le_refl 0
  allCommitted _ := rfl
  started := nofun
  entrySize := rfl
  shmEntrySize := hs

theorem readOp_writer (s : Sys) : (readOp s).1.writer = s.writer := by
  unfold readOp
  split <;> rfl

theorem readOp_shmEntrySize (s : Sys) :
    (readOp s).1.shared.header.shmEntrySize = s.shared.header.shmEntrySize := by
  unfold readOp
  split
  · rfl
  · rfl
  · simp only [xmShmEntryIteratorCommit]
    split
    · exact xmShmEntryPosUpdate_shmEntrySize _ _
    · rfl

theorem Trace.Tight.read (h : t.Tight conf) : (t.step .read).Tight conf where
  committed_le := h.committed_le
  allCommitted hn := h.allCommitted (by rw [← readOp_writer]; exact hn)
  started := by
    show (readOp t.sys).1.writer.hasHeader = true →
      (readOp t.sys).1.writer.curHeader.bfmt.start < (readOp t.sys).1.writer.curHeader.bfmt.pos
    rw [readOp_writer]
    exact h.started
  entrySize := by
    show (readOp t.sys).1.writer.entrySize = _
    rw [readOp_writer]
    exact h.entrySize
  shmEntrySize := by
    show 0 < (readOp t.sys).1.shared.header.shmEntrySize
    rw [readOp_shmEntrySize]
    exact h.shmEntrySize

theorem committedAfter_of_header {s : Sys} (hs : s.shared.header = t.sys.shared.header) :
    committedAfter t s = t.committed := by
  rw [committedAfter, hs, if_pos rfl]

theorem Trace.step_put {s : Sys} {rc : Int} (hput : putOp t.sys r = (s, rc)) :
    t.step (.put r) = { t with
      sys := s
      accepted := if rc = 0 then t.accepted ++ [r] else t.accepted
      committed := committedAfter t s } := by
  rw [Trace.step, hput]

theorem Trace.step_flush {s : Sys} (hflush : flushOp t.sys = s) :
    t.step .flush = { t with sys := s, committed := committedAfter t s } := by
  rw [Trace.step, hflush]

/-- A writer's operation that has created a header has committed all, if there was a chunk. -/
theorem Trace.Tight.committedAfter (h : t.Tight conf) {c : Shared × XmShmFormat × Bool}
    (hc : Creates t.sys.shared t.sys.writer c) {s : Sys} (hs : s.shared.header = c.1.header) :
    committedAfter t s = t.accepted.length := by
  rw [Xmap.Shm.committedAfter, hs]
  cases hh : t.sys.writer.hasHeader with
  | false =>
    have hcount := not_not.mp fun hne => by
      have := hc.count.mp hne
      rw [hh] at this
      cases this
    rw [if_pos hcount]
    exact h.allCommitted hh
  | true => rw [if_neg (hc.count.mpr hh)]

/-- A put that writes its record behind a header leaves it pending, whatever was committed before. -/
theorem Trace.put_pending {s : Sys} (hh : s.writer.hasHeader = true)
    (hstarted : s.writer.curHeader.bfmt.start < s.writer.curHeader.bfmt.pos)
    (hentry : s.writer.entrySize = conf.fentrySize % 2 ^ 32) (hshm : 0 < s.shared.header.shmEntrySize)
    (hcom : committedAfter t s ≤ t.accepted.length)
    (hput : putOp t.sys r = (⟨(shmRecordWrite s.shared s.writer (entryRecordOf r)).1,
      (shmRecordWrite s.shared s.writer (entryRecordOf r)).2, s.reader, s.pc⟩, 0)) :
    (t.step (.put r)).Tight conf ∧ (putOp t.sys r).2 = 0 ∧ ¬ (t.step (.put r)).AllCommitted := by
  have hcom' : committedAfter t ⟨(shmRecordWrite s.shared s.writer (entryRecordOf r)).1,
      (shmRecordWrite s.shared s.writer (entryRecordOf r)).2, s.reader, s.pc⟩ = committedAfter t s := by
    rw [committedAfter, committedAfter, shmRecordWrite_header]
  have hlt : committedAfter t s < (t.accepted ++ [r]).length := by
    rw [List.length_append, List.length_singleton]
    omega
  rw [Trace.step_put hput, hput, hcom', if_pos rfl]
  refine ⟨⟨hlt.le, fun hn => ?_, fun _ => shmRecordWrite_started hstarted, ?_, ?_⟩, rfl, hlt.ne⟩
  · rw [shmRecordWrite_hasHeader, hh] at hn
    cases hn
  · rw [shmRecordWrite_entrySize]
    exact hentry
  · rw [shmRecordWrite_header]
    exact hshm

/-- A put of a record that is not too large returns 0, and the record is pending, or it returns -1. -/
theorem Trace.Tight.put (h : t.Tight conf)
    (hover : ¬ isRecordSizeOver t.sys.writer (entryRecordOf r)) :
    (t.step (.put r)).Tight conf ∧
      (((putOp t.sys r).2 = 0 ∧ ¬ (t.step (.put r)).AllCommitted) ∨ (putOp t.sys r).2 = -1) := by
  by_cases hneed : isNeedCreateEntryHeader t.sys.writer (entryRecordOf r)
  · have hcr : Creates t.sys.shared t.sys.writer (shmEntryHeaderCreate t.sys.shared t.sys.writer) :=
      shmEntryHeaderCreate_creates h.shmEntrySize
    generalize hc : shmEntryHeaderCreate t.sys.shared t.sys.writer = c at hcr
    obtain ⟨sh, fmt, ok⟩ := c
    have hshm : 0 < sh.header.shmEntrySize := h.shmEntrySize.trans_eq hcr.shmEntrySize.symm
    have hcom : Xmap.Shm.committedAfter t ⟨sh, fmt, t.sys.reader, t.sys.pc⟩ = t.accepted.length :=
      h.committedAfter hcr rfl
    cases ok with
    | false =>
      have hput : putOp t.sys r = (⟨sh, fmt, t.sys.reader, t.sys.pc⟩, -1) := by
        simp only [putOp, xmShmEntryRecordPutOnce, xmShmFormatPut, if_neg hover, if_pos hneed, hc,
          Bool.false_eq_true, if_false]
      rw [Trace.step_put hput, hput, hcom, if_neg (by decide)]
      refine ⟨⟨le_rfl, fun _ => rfl, fun hh => ?_, hcr.entrySize.trans h.entrySize, hshm⟩, Or.inr rfl⟩
      rw [hcr.hasHeader] at hh
      cases hh
    | true =>
      have hput : putOp t.sys r = (⟨(shmRecordWrite sh fmt (entryRecordOf r)).1,
          (shmRecordWrite sh fmt (entryRecordOf r)).2, t.sys.reader, t.sys.pc⟩, 0) := by
        simp only [putOp, xmShmEntryRecordPutOnce, xmShmFormatPut, if_neg hover, if_pos hneed, hc,
          if_true]
      have hput' := Trace.put_pending (s := ⟨sh, fmt, t.sys.reader, t.sys.pc⟩) hcr.hasHeader
        (hcr.started rfl) (hcr.entrySize.trans h.entrySize) hshm hcom.le hput
      exact ⟨hput'.1, Or.inl hput'.2⟩
  · obtain ⟨hh, _⟩ := not_or.mp hneed
    have hheader : t.sys.writer.hasHeader = true := (Bool.not_eq_false _).mp hh
    have hput : putOp t.sys r = (⟨(shmRecordWrite t.sys.shared t.sys.writer (entryRecordOf r)).1,
        (shmRecordWrite t.sys.shared t.sys.writer (entryRecordOf r)).2, t.sys.reader, t.sys.pc⟩, 0) := by
      simp only [putOp, xmShmEntryRecordPutOnce, xmShmFormatPut, if_neg hover, if_neg hneed]
    have hcom : Xmap.Shm.committedAfter t t.sys ≤ t.accepted.length := by
      rw [committedAfter_of_header rfl]
      exact h.committed_le
    have hput' := Trace.put_pending hheader (h.started hheader) h.entrySize h.shmEntrySize hcom hput
    exact ⟨hput'.1, Or.inl hput'.2⟩

theorem Trace.put_over (hover : isRecordSizeOver t.sys.writer (entryRecordOf r)) :
    t.step (.put r) = t ∧ (putOp t.sys r).2 = -2 := by
  have hput : putOp t.sys r = (t.sys, -2) := by
    simp only [putOp, xmShmEntryRecordPutOnce, xmShmFormatPut, if_pos hover]
  rw [Trace.step_put hput, hput, committedAfter_of_header rfl, if_neg (by decide)]
  exact ⟨rfl, rfl⟩

theorem Trace.Tight.flush (h : t.Tight conf) :
    (t.step .flush).Tight conf ∧ (t.step .flush).AllCommitted := by
  by_cases hcan : canBeenFlush t.sys.writer
  · have hcr : Creates t.sys.shared t.sys.writer (shmEntryHeaderCreate t.sys.shared t.sys.writer) :=
      shmEntryHeaderCreate_creates h.shmEntrySize
    generalize hc : shmEntryHeaderCreate t.sys.shared t.sys.writer = c at hcr
    obtain ⟨sh, fmt, ok⟩ := c
    have hflush : flushOp t.sys = ⟨sh, fmt, t.sys.reader, t.sys.pc⟩ := by
      have hh : fmt.hasHeader = ok := hcr.hasHeader
      rw [flushOp, xmShmFormatFlush, if_pos hcan, hc]
      cases ok with
      | false => simp [← hh]
      | true => rfl
    have hcom : Xmap.Shm.committedAfter t ⟨sh, fmt, t.sys.reader, t.sys.pc⟩ = t.accepted.length :=
      h.committedAfter hcr rfl
    rw [Trace.step_flush hflush, hcom]
    refine ⟨⟨le_rfl, fun _ => rfl, fun hh => ?_, hcr.entrySize.trans h.entrySize, ?_⟩, rfl⟩
    · rw [hcr.hasHeader] at hh
      exact hcr.started hh
    · show 0 < sh.header.shmEntrySize
      rw [hcr.shmEntrySize]
      exact h.shmEntrySize
  · have hflush : flushOp t.sys = t.sys := by
      rw [flushOp, xmShmFormatFlush, if_neg hcan]
    rw [Trace.step_flush hflush, committedAfter_of_header rfl]
    refine ⟨h, h.allCommitted ?_⟩
    cases hh : t.sys.writer.hasHeader with
    | false => rfl
    | true => exact absurd ⟨hh, (h.started hh).ne'⟩ hcan

end

/-! ## A ring without entries -/

/-- The file holds no entry, so neither process has one. -/
structure Entryless (s : Sys) : Prop where
  entriesCount : s.shared.header.shmEntriesCount = 0
  entriesCountCur : s.shared.header.shmEntriesCountCur = 0
  hasHeader : s.writer.hasHeader = false
  pc : s.pc = .prepare

namespace Entryless

variable {s : Sys}

/-- The ring is full and empty at once. -/
theorem entryGet (h : Entryless s) (isWrite : Bool) : xmShmEntryGet s.shared.header isWrite = none := by
  refine if_neg ?_
  cases isWrite <;> simp [shmEntryCanGet, xmShmFull, xmShmEmpty, h.entriesCount, h.entriesCountCur]

theorem headerCreate (h : Entryless s) :
    shmEntryHeaderCreate s.shared s.writer = (s.shared, s.writer, false) := by
  have hcommit : commitCurHeader s.shared s.writer = (s.shared, s.writer) :=
    commitCurHeader_of_not_hasHeader h.hasHeader
  rw [shmEntryHeaderCreate_of_none (by rw [hcommit]; exact h.entryGet true), hcommit]

theorem formatPut (h : Entryless s) (r : ShmRecord) : xmShmFormatPut s.shared s.writer (entryRecordOf r) =
    (s.shared, s.writer, if isRecordSizeOver s.writer (entryRecordOf r) then -2 else -1) := by
  have hneed : isNeedCreateEntryHeader s.writer (entryRecordOf r) := Or.inl h.hasHeader
  by_cases hover : isRecordSizeOver s.writer (entryRecordOf r)
  · simp only [xmShmFormatPut, if_pos hover]
  · simp only [xmShmFormatPut, if_neg hover, if_pos hneed, h.headerCreate, Bool.false_eq_true, if_false]

theorem put (h : Entryless s) (r : ShmRecord) :
    putOp s r = (s, if isRecordSizeOver s.writer (entryRecordOf r) then -2 else -1) := by
  simp only [putOp, xmShmEntryRecordPutOnce, h.formatPut]

theorem flush (h : Entryless s) : flushOp s = s := by
  have hcan : ¬ canBeenFlush s.writer := by
    rintro ⟨hh, _⟩
    rw [h.hasHeader] at hh
    cases hh
  rw [flushOp, xmShmFormatFlush, if_neg hcan]

theorem read (h : Entryless s) :
    readOp s = ({ s with reader := { s.reader with shmIter := ⟨false, 0⟩ } }, none) := by
  rw [readOp, h.pc]
  simp only [xmShmEntryIteratorPrefare, h.entryGet, Bool.false_eq_true, if_false]

theorem step {t : Trace} (h : Entryless t.sys) (op : Op) : Entryless (t.step op).sys := by
  cases op with
  | put r =>
    show Entryless (putOp t.sys r).1
    rw [h.put]
    exact h
  | flush =>
    show Entryless (flushOp t.sys)
    rw [h.flush]
    exact h
  | read =>
    show Entryless (readOp t.sys).1
    rw [h.read]
    exact ⟨h.entriesCount, h.entriesCountCur, h.hasHeader, h.pc⟩

theorem run {t : Trace} (h : Entryless t.sys) (ops : List Op) : Entryless (t.run ops).sys := by
  induction ops generalizing t with
  | nil => exact h
  | cons op ops ih => exact ih (t := t.step op) (h.step op)

end Entryless

end Xmap.Shm
