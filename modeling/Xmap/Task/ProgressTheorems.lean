import Xmap.Shm.Lemmas.Pending
import Xmap.Shm.Mmap
import Xmap.Task.RecvTask

/-!
# Theorems on the progress of a put

A put that is retried while the reading process takes what is committed gets its entry, unless the file holds
none: then the ring is full and empty at once.
-/

namespace Xmap.Task

open Xmap.Lib Xmap.Shm

/-- The attempts of the loop of `xm_shm_entry_record_put` that find every committed entry released. -/
def emptyAttempts : List Nat → Trace → ShmRecord → Nat
  | [], _, _ => 0
  | reads :: rest, t, r =>
    let t := readerRuns t reads
    (if xmShmEmpty t.sys.shared.header then 1 else 0) + emptyAttempts rest (t.step (.put r)) r

/-- After every history, the loop returns 0 no later than at its second attempt that finds the ring empty. -/
def Progresses (args : StoreArgs) (r : ShmRecord) : Prop :=
  ∀ mem ops reads, 2 ≤ emptyAttempts reads ((args.start mem).run ops) r →
    (xmShmEntryRecordPut reads ((args.start mem).run ops) r).map Trace.accepted =
      some (((args.start mem).run ops).accepted ++ [r])

/-! ## What stays as it was at the start -/

section
variable {sh : Shared} {fmt : XmShmFormat} {t : Trace} {r : ShmRecord} {size count : Nat}

/-- The limit of the writer and the number of entries. -/
structure Sized (size count : Nat) (sh : Shared) (fmt : XmShmFormat) : Prop where
  entrySize : fmt.entrySize = size
  entriesCount : sh.header.shmEntriesCount = count

theorem xmShmEntryPosUpdate_shmEntriesCount (mh : XmShmHeader) (isWrite : Bool) :
    (xmShmEntryPosUpdate mh isWrite).shmEntriesCount = mh.shmEntriesCount := by
  simp only [xmShmEntryPosUpdate, XmShmHeader.stepPos]
  split <;> rfl

theorem Sized.commit (h : Sized size count sh fmt) :
    Sized size count (commitCurHeader sh fmt).1 (commitCurHeader sh fmt).2 := by
  refine ⟨commitCurHeader_entrySize.trans h.entrySize, ?_⟩
  cases hh : fmt.hasHeader with
  | false =>
    rw [commitCurHeader_of_not_hasHeader hh]
    exact h.entriesCount
  | true =>
    rw [commitCurHeader_of_hasHeader hh, xmShmEntryPosUpdate_shmEntriesCount]
    exact h.entriesCount

theorem Sized.create (h : Sized size count sh fmt) :
    Sized size count (shmEntryHeaderCreate sh fmt).1 (shmEntryHeaderCreate sh fmt).2.1 := by
  have hc := h.commit
  cases hg : xmShmEntryGet (commitCurHeader sh fmt).1.header true with
  | none =>
    rw [shmEntryHeaderCreate_of_none hg]
    exact hc
  | some entry =>
    rw [shmEntryHeaderCreate_of_some hg]
    exact ⟨hc.entrySize, hc.entriesCount⟩

theorem Sized.put (h : Sized size count sh fmt) (record : XmShmEntryRecord) :
    Sized size count (xmShmFormatPut sh fmt record).1 (xmShmFormatPut sh fmt record).2.1 := by
  have hwrite : ∀ {sh fmt}, Sized size count sh fmt →
      Sized size count (shmRecordWrite sh fmt record).1 (shmRecordWrite sh fmt record).2 := fun hs =>
    ⟨shmRecordWrite_entrySize.trans hs.entrySize,
      (congrArg _ shmRecordWrite_header).trans hs.entriesCount⟩
  unfold xmShmFormatPut
  dsimp only
  split
  · exact h
  · split
    · split
      · exact hwrite h.create
      · exact h.create
    · exact hwrite h

theorem Sized.flush (h : Sized size count sh fmt) :
    Sized size count (xmShmFormatFlush sh fmt).1 (xmShmFormatFlush sh fmt).2 := by
  have hc := h.create
  unfold xmShmFormatFlush
  dsimp only
  split
  · split
    · exact hc
    · exact ⟨hc.entrySize, hc.entriesCount⟩
  · exact h

theorem readOp_shmEntriesCount (s : Sys) :
    (readOp s).1.shared.header.shmEntriesCount = s.shared.header.shmEntriesCount := by
  unfold readOp
  split
  · rfl
  · rfl
  · simp only [xmShmEntryIteratorCommit]
    split
    · exact xmShmEntryPosUpdate_shmEntriesCount _ _
    · rfl

theorem Sized.read {s : Sys} (h : Sized size count s.shared s.writer) :
    Sized size count (readOp s).1.shared (readOp s).1.writer where
  entrySize := (congrArg _ (readOp_writer s)).trans h.entrySize
  entriesCount := (readOp_shmEntriesCount s).trans h.entriesCount

theorem putOp_eq (s : Sys) (r : ShmRecord) : putOp s r =
    (⟨(xmShmFormatPut s.shared s.writer (entryRecordOf r)).1,
        (xmShmFormatPut s.shared s.writer (entryRecordOf r)).2.1, s.reader, s.pc⟩,
      (xmShmFormatPut s.shared s.writer (entryRecordOf r)).2.2) := by
  rw [putOp, xmShmEntryRecordPutOnce]

theorem Sized.of_putOp {p : Shared × XmShmFormat × Int} (h : Sized size count p.1 p.2.1)
    (hput : putOp t.sys r = (⟨p.1, p.2.1, t.sys.reader, t.sys.pc⟩, p.2.2)) :
    Sized size count (t.step (.put r)).sys.shared (t.step (.put r)).sys.writer := by
  rw [Trace.step_put hput]
  exact h

theorem Sized.step (h : Sized size count t.sys.shared t.sys.writer) (op : Op) :
    Sized size count (t.step op).sys.shared (t.step op).sys.writer := by
  cases op with
  | put r => exact Sized.of_putOp (h.put (entryRecordOf r)) (putOp_eq t.sys r)
  | flush => exact h.flush
  | read => exact h.read

theorem Sized.run (h : Sized size count t.sys.shared t.sys.writer) (ops : List Op) :
    Sized size count (t.run ops).sys.shared (t.run ops).sys.writer := by
  induction ops generalizing t with
  | nil => exact h
  | cons op ops ih => exact ih (t := t.step op) (h.step op)

theorem isRecordSizeOver_congr {fmt' : XmShmFormat} {record : XmShmEntryRecord}
    (h : fmt'.entrySize = fmt.entrySize) : isRecordSizeOver fmt' record ↔ isRecordSizeOver fmt record := by
  rw [isRecordSizeOver, isRecordSizeOver, h]

/-! ## One attempt -/

theorem shmEntryHeaderCreate_hasHeader (h : (shmEntryHeaderCreate sh fmt).2.2 = false) :
    (shmEntryHeaderCreate sh fmt).2.1.hasHeader = false := by
  cases hg : xmShmEntryGet (commitCurHeader sh fmt).1.header true with
  | none =>
    rw [shmEntryHeaderCreate_of_none hg]
    exact commitCurHeader_hasHeader
  | some entry =>
    rw [shmEntryHeaderCreate_of_some hg] at h
    cases h

theorem putOp_result {p : Shared × XmShmFormat × Int} {s : Sys}
    (hput : putOp s r = (⟨p.1, p.2.1, s.reader, s.pc⟩, p.2.2)) :
    (putOp s r).2 = p.2.2 ∧ (putOp s r).1.writer = p.2.1 := by
  rw [hput]
  exact ⟨rfl, rfl⟩

/-- An attempt succeeds, or it leaves the writer without a chunk. -/
theorem putOp_outcome {s : Sys} (hover : ¬ isRecordSizeOver s.writer (entryRecordOf r)) :
    (putOp s r).2 = 0 ∨ ((putOp s r).2 = -1 ∧ (putOp s r).1.writer.hasHeader = false) := by
  obtain ⟨hrc, hwriter⟩ := putOp_result (putOp_eq s r)
  rw [hrc, hwriter]
  by_cases hneed : isNeedCreateEntryHeader s.writer (entryRecordOf r)
  · cases hok : (shmEntryHeaderCreate s.shared s.writer).2.2 with
    | true =>
      left
      simp only [xmShmFormatPut, if_neg hover, if_pos hneed, hok, if_true]
    | false =>
      right
      simp only [xmShmFormatPut, if_neg hover, if_pos hneed, hok, Bool.false_eq_true, if_false, true_and]
      exact shmEntryHeaderCreate_hasHeader hok
  · left
    simp only [xmShmFormatPut, if_neg hover, if_neg hneed]

/-- Without a chunk, what decides is whether the ring is full. -/
theorem putOp_of_not_hasHeader {s : Sys} (hover : ¬ isRecordSizeOver s.writer (entryRecordOf r))
    (hh : s.writer.hasHeader = false) : (putOp s r).2 = if xmShmFull s.shared.header then -1 else 0 := by
  have hneed : isNeedCreateEntryHeader s.writer (entryRecordOf r) := Or.inl hh
  have hok : (shmEntryHeaderCreate s.shared s.writer).2.2 = !xmShmFull s.shared.header := by
    rw [shmEntryHeaderCreate_succeeds, commitCurHeader_of_not_hasHeader hh]
  rw [(putOp_result (putOp_eq s r)).1]
  cases hfull : xmShmFull s.shared.header <;>
    simp only [xmShmFormatPut, if_neg hover, if_pos hneed, hok, hfull, Bool.not_false, Bool.not_true,
      Bool.false_eq_true, if_true, if_false]

/-! ## The loop -/

theorem readerRuns_accepted (t : Trace) (n : Nat) : (readerRuns t n).accepted = t.accepted := by
  induction n generalizing t with
  | zero => rfl
  | succ n ih => exact ih (t.step .read)

theorem readerRuns_writer (t : Trace) (n : Nat) : (readerRuns t n).sys.writer = t.sys.writer := by
  induction n generalizing t with
  | zero => rfl
  | succ n ih => exact (ih (t.step .read)).trans (readOp_writer t.sys)

theorem Sized.readerRuns (h : Sized size count t.sys.shared t.sys.writer) (n : Nat) :
    Sized size count (readerRuns t n).sys.shared (readerRuns t n).sys.writer := h.run _

theorem step_put_accepted (t : Trace) (r : ShmRecord) : (t.step (.put r)).accepted =
    if (putOp t.sys r).2 = 0 then t.accepted ++ [r] else t.accepted := rfl

theorem step_put_writer (t : Trace) (r : ShmRecord) :
    (t.step (.put r)).sys.writer = (putOp t.sys r).1.writer := rfl

/-- The loop with its first attempt. -/
theorem xmShmEntryRecordPut_cons {n : Nat} {reads : List Nat}
    (hover : ¬ isRecordSizeOver t.sys.writer (entryRecordOf r)) :
    (∃ t', (putOp (readerRuns t n).sys r).2 = 0 ∧ xmShmEntryRecordPut (n :: reads) t r = some t' ∧
        t'.accepted = t.accepted ++ [r]) ∨
      ((putOp (readerRuns t n).sys r).2 = -1 ∧
        xmShmEntryRecordPut (n :: reads) t r =
          xmShmEntryRecordPut reads ((readerRuns t n).step (.put r)) r ∧
        ((readerRuns t n).step (.put r)).accepted = t.accepted ∧
        ((readerRuns t n).step (.put r)).sys.writer.hasHeader = false) := by
  rw [← readerRuns_writer t n] at hover
  have haccepted := step_put_accepted (readerRuns t n) r
  have hwriter := step_put_writer (readerRuns t n) r
  rw [readerRuns_accepted] at haccepted
  obtain hrc | ⟨hrc, hh⟩ := putOp_outcome hover
  · rw [if_pos hrc] at haccepted
    refine Or.inl ⟨_, hrc, ?_, haccepted⟩
    rw [xmShmEntryRecordPut]
    simp only [hrc, if_true]
  · rw [hrc, if_neg (by decide)] at haccepted
    refine Or.inr ⟨hrc, ?_, haccepted, by rw [hwriter]; exact hh⟩
    rw [xmShmEntryRecordPut]
    simp only [hrc]
    rw [if_neg (by decide), if_neg (by decide)]

/-- Without a chunk, one attempt that finds the ring empty is enough. -/
theorem xmShmEntryRecordPut_of_not_hasHeader {reads : List Nat} (hcount : 0 < count)
    (h : Sized size count t.sys.shared t.sys.writer) (hh : t.sys.writer.hasHeader = false)
    (hover : ¬ isRecordSizeOver t.sys.writer (entryRecordOf r)) (hempty : 1 ≤ emptyAttempts reads t r) :
    (xmShmEntryRecordPut reads t r).map Trace.accepted = some (t.accepted ++ [r]) := by
  induction reads generalizing t with
  | nil => simp [emptyAttempts] at hempty
  | cons n reads ih =>
    obtain ⟨t', _, hput, haccepted⟩ | ⟨hrc, hput, haccepted, hh'⟩ := xmShmEntryRecordPut_cons hover
    · rw [hput, Option.map_some, haccepted]
    · have hreads := h.readerRuns n
      have hstep := hreads.step (.put r)
      have hnot : xmShmEmpty (readerRuns t n).sys.shared.header = false := by
        rw [← readerRuns_writer t n] at hh hover
        rw [← Bool.not_eq_true]
        intro hzero
        have hcur : (readerRuns t n).sys.shared.header.shmEntriesCountCur = 0 := of_decide_eq_true hzero
        have hfull : xmShmFull (readerRuns t n).sys.shared.header = false := by
          rw [xmShmFull, hcur, hreads.entriesCount]
          exact decide_eq_false hcount.ne
        have hrc' := putOp_of_not_hasHeader hover hh
        rw [hrc, hfull] at hrc'
        cases hrc'
      simp only [emptyAttempts, hnot, Bool.false_eq_true, if_false, Nat.zero_add] at hempty
      have hover' := mt (isRecordSizeOver_congr (hstep.entrySize.trans h.entrySize.symm)).mp hover
      rw [hput, ih hstep hh' hover' hempty, haccepted]

/-- With entries in the file, the second attempt that finds the ring empty is enough. -/
theorem xmShmEntryRecordPut_progress {reads : List Nat} (hcount : 0 < count)
    (h : Sized size count t.sys.shared t.sys.writer)
    (hover : ¬ isRecordSizeOver t.sys.writer (entryRecordOf r)) (hempty : 2 ≤ emptyAttempts reads t r) :
    (xmShmEntryRecordPut reads t r).map Trace.accepted = some (t.accepted ++ [r]) := by
  cases reads with
  | nil => simp [emptyAttempts] at hempty
  | cons n reads =>
    obtain ⟨t', _, hput, haccepted⟩ | ⟨hrc, hput, haccepted, hh'⟩ := xmShmEntryRecordPut_cons hover
    · rw [hput, Option.map_some, haccepted]
    · have hstep := (h.readerRuns n).step (.put r)
      have hrest : 1 ≤ emptyAttempts reads ((readerRuns t n).step (.put r)) r := by
        simp only [emptyAttempts] at hempty
        split at hempty <;> omega
      have hover' := mt (isRecordSizeOver_congr (hstep.entrySize.trans h.entrySize.symm)).mp hover
      rw [hput, xmShmEntryRecordPut_of_not_hasHeader hcount hstep hh' hover' hrest, haccepted]

/-- In a ring without entries every attempt finds it empty, and none succeeds. -/
theorem xmShmEntryRecordPut_of_entryless {reads : List Nat} (h : Entryless t.sys)
    (hover : ¬ isRecordSizeOver t.sys.writer (entryRecordOf r)) :
    xmShmEntryRecordPut reads t r = none ∧ emptyAttempts reads t r = reads.length := by
  induction reads generalizing t with
  | nil => exact ⟨rfl, rfl⟩
  | cons n reads ih =>
    have hreads : Entryless (readerRuns t n).sys := h.run _
    rw [← readerRuns_writer t n] at hover
    have hput := hreads.put r
    rw [if_neg hover] at hput
    have hwriter := step_put_writer (readerRuns t n) r
    rw [hput] at hwriter
    obtain ⟨hnone, hlen⟩ := ih (hreads.step (.put r)) (by rw [hwriter]; exact hover)
    have hempty : xmShmEmpty (readerRuns t n).sys.shared.header = true := decide_eq_true hreads.entriesCountCur
    constructor
    · rw [xmShmEntryRecordPut]
      simp only [hput]
      rw [if_neg (by decide), if_neg (by decide), hnone]
    · simp only [emptyAttempts, hempty, if_true, hlen, List.length_cons]
      omega

end

/-- Without entries, no number of attempts is enough at the start of a run. -/
theorem start_waits (args : StoreArgs) (mem : Mem) {r : ShmRecord}
    (hr : ¬ isRecordSizeOver (xmShmFormatCreate args.fentrySize) (entryRecordOf r))
    (hcount : args.header.shmEntriesCount = 0) (reads : List Nat) :
    xmShmEntryRecordPut reads (args.start mem) r = none ∧
      emptyAttempts reads (args.start mem) r = reads.length :=
  xmShmEntryRecordPut_of_entryless ⟨hcount, rfl, rfl, rfl⟩ hr

/-- The put of a record that is not too large always makes progress exactly when the file holds an entry. -/
theorem xmShmEntryRecordPut_progresses_iff (args : StoreArgs) {r : ShmRecord}
    (hr : ¬ isRecordSizeOver (xmShmFormatCreate args.fentrySize) (entryRecordOf r)) :
    Progresses args r ↔ 0 < args.header.shmEntriesCount := by
  constructor
  · intro h
    by_contra hzero
    have hcount : args.header.shmEntriesCount = 0 := by omega
    obtain ⟨hnone, hlen⟩ := start_waits args (fun _ => 0) hr hcount [0, 0]
    have hsome := h (fun _ => 0) [] [0, 0] hlen.ge
    rw [Trace.run, List.foldl_nil, hnone] at hsome
    cases hsome
  · intro hcount mem ops reads hempty
    have hstart : Sized (args.fentrySize % 2 ^ 32) args.header.shmEntriesCount (args.start mem).sys.shared
        (args.start mem).sys.writer := ⟨rfl, rfl⟩
    have hrun := hstart.run ops
    refine xmShmEntryRecordPut_progress hcount hrun ?_ hempty
    rw [isRecordSizeOver, hrun.entrySize]
    exact hr

/-- A file of one byte, with entries of one. -/
def byteArgs : StoreArgs where
  pageShift := 12
  fsize := 1
  fentrySize := 1
  page_le := page_shift_le
  fsize_pos := Nat.one_pos
  fsize_lt := by decide
  fentry_pos := Nat.one_pos
  fentry_lt := by decide

theorem byteArgs_holds_record :
    ¬ isRecordSizeOver (xmShmFormatCreate byteArgs.fentrySize) (entryRecordOf ⟨0, []⟩) := by decide

theorem xmShmEntryRecordPut_progresses_iff_byte :
    Progresses byteArgs ⟨0, []⟩ ↔ 0 < byteArgs.header.shmEntriesCount :=
  xmShmEntryRecordPut_progresses_iff byteArgs byteArgs_holds_record

/-- Its only page is the header, and a put waits for ever: with any number of attempts it has not returned, though
all of them find the ring empty. -/
theorem xmShmEntryRecordPut_waits :
    ¬ Progresses byteArgs ⟨0, []⟩ ∧ ∀ mem reads,
      xmShmEntryRecordPut reads (byteArgs.start mem) ⟨0, []⟩ = none ∧
        emptyAttempts reads (byteArgs.start mem) ⟨0, []⟩ = reads.length := by
  have hwaits := fun mem => start_waits byteArgs mem byteArgs_holds_record (by decide)
  refine ⟨fun h => ?_, hwaits⟩
  obtain ⟨hnone, hlen⟩ := hwaits (fun _ => 0) [0, 0]
  have hsome := h (fun _ => 0) [] [0, 0] hlen.ge
  rw [Trace.run, List.foldl_nil, hnone] at hsome
  cases hsome

end Xmap.Task
