import Xmap.Shm.Lemmas.Pending
import Xmap.Shm.Lemmas.Refines
import Xmap.Shm.Mmap

/-!
# Theorems on single puts

A put appends its record whole, or refuses it and changes nothing, unless the entries are smaller than a
header: then the size that a record may have wraps, and a record that the mapped entry cannot hold is cut off.
-/

namespace Xmap.Shm

open Xmap.Lib

/-! ## The results of the writes -/

/-- What `xm_bf_uint8_write` and its kin return. -/
def xmBfValueWriteRc (sz : Nat) (bf : XmBinFormat) : Int := if xmBfFull bf sz then -1 else sz

/-- What `xm_bf_bytes_write` returns. -/
def xmBfBytesWriteRc (bf : XmBinFormat) (bytes : List UInt8) : Int :=
  if xmBfFull bf (bytes.length + 8) then -1 else (bytes.length + 8 : Nat)

/-- The results of the writes of `_shm_record_write`, which ignores them. -/
def recordWriteRcs (w : Mem × XmBinFormat) (record : XmShmEntryRecord) : List Int :=
  let w₁ := xmBfUint32Write w EIMAGIC
  let w₂ := xmBfUint32Write w₁ (xmShmRecordLen record)
  let w₃ := xmBfUint8Write w₂ record.type
  let w₄ := xmBfUint32Write w₃ record.dataOffset
  [xmBfValueWriteRc 4 w.2, xmBfValueWriteRc 4 w₁.2, xmBfValueWriteRc 1 w₂.2, xmBfValueWriteRc 4 w₃.2,
    xmBfBytesWriteRc w₄.2 record.data]

/-- The memory and the chunk that a put of the record writes to. -/
def writeTarget (sh : Shared) (fmt : XmShmFormat) (record : XmShmEntryRecord) : Shared × XmShmFormat :=
  if isNeedCreateEntryHeader fmt record then
    ((shmEntryHeaderCreate sh fmt).1, (shmEntryHeaderCreate sh fmt).2.1)
  else (sh, fmt)

/-- The record stands behind what was in the chunk, all of it, and is counted. -/
structure Appended (sh : Shared) (fmt : XmShmFormat) (r : ShmRecord) (sh' : Shared) (fmt' : XmShmFormat) :
    Prop where
  rcs : ∀ rc ∈ recordWriteRcs (sh.mem, fmt.curHeader.bfmt) (entryRecordOf r), rc ≠ -1
  mem : sh'.mem = sh.mem.write fmt.curHeader.bfmt.pos (encRecord r)
  bfmt : fmt'.curHeader.bfmt = xmBfPosUpdate fmt.curHeader.bfmt (21 + r.data.length)
  number : fmt'.curHeader.entriesNumber = fmt.curHeader.entriesNumber + 1
  size : fmt'.curHeader.entriesSize = fmt.curHeader.entriesSize + (21 + r.data.length)

/-- A put of the record that returns 0 has appended it, and one that returns -2 has changed nothing. -/
structure AllOrNothing (sh : Shared) (fmt : XmShmFormat) (r : ShmRecord) : Prop where
  all : (xmShmFormatPut sh fmt (entryRecordOf r)).2.2 = 0 →
    Appended (writeTarget sh fmt (entryRecordOf r)).1 (writeTarget sh fmt (entryRecordOf r)).2 r
      (xmShmFormatPut sh fmt (entryRecordOf r)).1 (xmShmFormatPut sh fmt (entryRecordOf r)).2.1
  nothing : (xmShmFormatPut sh fmt (entryRecordOf r)).2.2 = -2 →
    (xmShmFormatPut sh fmt (entryRecordOf r)).1 = sh ∧ (xmShmFormatPut sh fmt (entryRecordOf r)).2.1 = fmt

section
variable {w : Mem × XmBinFormat} {sh : Shared} {fmt : XmShmFormat} {r : ShmRecord}

theorem xmBfValueWriteRc_ne {sz : Nat} {bf : XmBinFormat} :
    xmBfValueWriteRc sz bf ≠ -1 ↔ bf.pos + sz ≤ bf.finish := by
  unfold xmBfValueWriteRc xmBfFull
  split <;> omega

theorem xmBfBytesWriteRc_ne {bf : XmBinFormat} {bytes : List UInt8} :
    xmBfBytesWriteRc bf bytes ≠ -1 ↔ bf.pos + (bytes.length + 8) ≤ bf.finish := by
  unfold xmBfBytesWriteRc xmBfFull
  split <;> omega

theorem recordWriteRcs_ne_iff :
    (∀ rc ∈ recordWriteRcs w (entryRecordOf r), rc ≠ -1) ↔
      w.2.pos + (21 + r.data.length) ≤ w.2.finish := by
  simp only [recordWriteRcs, List.forall_mem_cons, List.not_mem_nil, false_implies, implies_true, and_true,
    xmBfValueWriteRc_ne, xmBfBytesWriteRc_ne, xmBfUint32Write, xmBfUint8Write]
  have hdata : (entryRecordOf r).data = r.data := rfl
  rw [hdata]
  constructor
  · rintro ⟨h₀, h₁, h₂, h₃, h₄⟩
    rw [xmBfValueWrite_eq h₀] at h₁ h₂ h₃ h₄
    rw [xmBfValueWrite_eq h₁] at h₂ h₃ h₄
    rw [xmBfValueWrite_eq h₂] at h₃ h₄
    rw [xmBfValueWrite_eq h₃] at h₄
    simp only [doWrite, xmBfPosUpdate, length_toBE] at h₄
    omega
  · intro h
    rw [xmBfValueWrite_eq (by omega), xmBfValueWrite_doWrite (by simp; omega),
      xmBfValueWrite_doWrite (by simp; omega), xmBfValueWrite_doWrite (by simp; omega)]
    simp only [doWrite, xmBfPosUpdate, List.length_append, length_toBE]
    omega

/-! ## Chunks -/

/-- The chunk of the writer lies in an entry of `size` bytes, and its counters tell what is in it. -/
structure Chunk (size : Nat) (fmt : XmShmFormat) : Prop where
  finish : fmt.curHeader.bfmt.finish = fmt.curHeader.bfmt.start + size
  pos_le : fmt.curHeader.bfmt.pos ≤ fmt.curHeader.bfmt.finish
  entriesSize : fmt.curHeader.bfmt.start + min 20 size + fmt.curHeader.entriesSize ≤ fmt.curHeader.bfmt.pos
  number : fmt.curHeader.entriesNumber ≤ fmt.curHeader.entriesSize + 1

/-- A chunk without a record. -/
structure FreshChunk (size : Nat) (fmt : XmShmFormat) : Prop where
  finish : fmt.curHeader.bfmt.finish = fmt.curHeader.bfmt.start + size
  pos : fmt.curHeader.bfmt.pos = fmt.curHeader.bfmt.start + min 20 size
  entriesSize : fmt.curHeader.entriesSize = 0
  number : fmt.curHeader.entriesNumber = 0

theorem FreshChunk.chunk {size : Nat} (h : FreshChunk size fmt) : Chunk size fmt where
  finish := h.finish
  pos_le := by rw [h.pos, h.finish]; omega
  entriesSize := by rw [h.pos, h.entriesSize, Nat.add_zero]
  number := by rw [h.number]; omega

/-- The buffer after some writes: the same range, and its position has moved on inside it. -/
structure Moved (bf bf' : XmBinFormat) : Prop where
  start : bf'.start = bf.start
  finish : bf'.finish = bf.finish
  le : bf.pos ≤ bf'.pos
  pos_le : bf.pos ≤ bf.finish → bf'.pos ≤ bf.finish

theorem Moved.trans {bf bf' bf'' : XmBinFormat} (h : Moved bf bf') (h' : Moved bf' bf'') : Moved bf bf'' where
  start := h'.start.trans h.start
  finish := h'.finish.trans h.finish
  le := h.le.trans h'.le
  pos_le hle := by
    rw [← h.finish]
    exact h'.pos_le (by rw [h.finish]; exact h.pos_le hle)

theorem xmBfValueWrite_moved (sz v : Nat) (w : Mem × XmBinFormat) : Moved w.2 (xmBfValueWrite sz w v).2 := by
  by_cases hfull : xmBfFull w.2 sz
  · rw [xmBfValueWrite, if_pos hfull]
    exact ⟨rfl, rfl, le_rfl, id⟩
  · have hfit : w.2.pos + sz ≤ w.2.finish := Nat.le_of_not_lt hfull
    rw [xmBfValueWrite_eq hfit]
    simp only [doWrite, length_toBE]
    exact ⟨rfl, rfl, Nat.le_add_right _ _, fun _ => hfit⟩

theorem xmBfBytesWrite_moved (w : Mem × XmBinFormat) (bytes : List UInt8) :
    Moved w.2 (xmBfBytesWrite w bytes).2 := by
  by_cases hfull : xmBfFull w.2 (bytes.length + 8)
  · rw [xmBfBytesWrite, if_pos hfull]
    exact ⟨rfl, rfl, le_rfl, id⟩
  · have hfit : w.2.pos + (bytes.length + 8) ≤ w.2.finish := Nat.le_of_not_lt hfull
    rw [xmBfBytesWrite, if_neg hfull, xmBfSizeWrite, xmBfValueWrite_eq (by omega)]
    simp only [doWrite, length_toBE, xmBfPosUpdate]
    exact ⟨rfl, rfl, by simp only; omega, fun _ => by simp only; omega⟩

theorem recordWrites_moved (w : Mem × XmBinFormat) (record : XmShmEntryRecord) :
    Moved w.2 (recordWrites w record).2 :=
  (((xmBfValueWrite_moved 4 _ w).trans (xmBfValueWrite_moved 4 _ _)).trans
    ((xmBfValueWrite_moved 1 _ _).trans (xmBfValueWrite_moved 4 _ _))).trans (xmBfBytesWrite_moved _ _)

/-! ## One write -/

theorem entriesSize_after {start pos pos' size : Nat} (hs : start ≤ pos) (hp : pos ≤ pos')
    (hlt : size + (pos' - pos) < 2 ^ 32) :
    (size + ((pos' - start) % 2 ^ 32 + 2 ^ 32 - (pos - start) % 2 ^ 32)) % 2 ^ 32 = size + (pos' - pos) := by
  omega

theorem Chunk.append {size : Nat} (h : Chunk size fmt) (sh : Shared) (hsize : size ≤ 2 ^ 32)
    (hfit : fmt.curHeader.bfmt.pos + (21 + r.data.length) ≤ fmt.curHeader.bfmt.finish) :
    Appended sh fmt r (shmRecordWrite sh fmt (entryRecordOf r)).1 (shmRecordWrite sh fmt (entryRecordOf r)).2 ∧
      Chunk size (shmRecordWrite sh fmt (entryRecordOf r)).2 := by
  obtain ⟨hfin, hpos, hes, hnum⟩ := h
  have hw : recordWrites (sh.mem, fmt.curHeader.bfmt) (entryRecordOf r) =
      doWrite (sh.mem, fmt.curHeader.bfmt) (encRecord r) := recordWrites_eq hfit
  have hbfmt : (shmRecordWrite sh fmt (entryRecordOf r)).2.curHeader.bfmt =
      xmBfPosUpdate fmt.curHeader.bfmt (21 + r.data.length) := by
    rw [shmRecordWrite_bfmt, hw, doWrite, length_encRecord]
  have hnumber : (shmRecordWrite sh fmt (entryRecordOf r)).2.curHeader.entriesNumber =
      fmt.curHeader.entriesNumber + 1 := by
    simp only [shmRecordWrite]
    omega
  have hsz : (shmRecordWrite sh fmt (entryRecordOf r)).2.curHeader.entriesSize =
      fmt.curHeader.entriesSize + (21 + r.data.length) := by
    simp only [shmRecordWrite, hw, doWrite, length_encRecord, xmBfContentSize, xmBfPosUpdate]
    rw [entriesSize_after (by omega) (by omega) (by omega)]
    omega
  refine ⟨⟨recordWriteRcs_ne_iff.mpr hfit, ?_, hbfmt, hnumber, hsz⟩, ?_, ?_, ?_, ?_⟩
  · simp only [shmRecordWrite, hw, doWrite]
  · rw [hbfmt]
    exact hfin
  · rw [hbfmt]
    exact hfit
  · rw [hbfmt, hsz]
    simp only [xmBfPosUpdate]
    omega
  · rw [hnumber, hsz]
    omega

/-- The first record of a chunk may be cut off. -/
theorem FreshChunk.write {size : Nat} (h : FreshChunk size fmt) (h0 : 0 < size) (hsize : size ≤ 2 ^ 32)
    (record : XmShmEntryRecord) : Chunk size (shmRecordWrite sh fmt record).2 := by
  obtain ⟨hfin, hpos, hes, hnum⟩ := h
  obtain ⟨hstart, hfin', hle, hpos'⟩ := recordWrites_moved (sh.mem, fmt.curHeader.bfmt) record
  have hbfmt : (shmRecordWrite sh fmt record).2.curHeader.bfmt =
      (recordWrites (sh.mem, fmt.curHeader.bfmt) record).2 := shmRecordWrite_bfmt
  have hnumber : (shmRecordWrite sh fmt record).2.curHeader.entriesNumber = 1 := by
    simp only [shmRecordWrite, hnum]
    rfl
  have hsz : (shmRecordWrite sh fmt record).2.curHeader.entriesSize =
      (recordWrites (sh.mem, fmt.curHeader.bfmt) record).2.pos - fmt.curHeader.bfmt.pos := by
    simp only [shmRecordWrite, xmBfContentSize, hstart, hes]
    have := hpos' (by simp only; omega)
    simp only at hle this
    rw [entriesSize_after (by omega) hle (by omega), Nat.zero_add]
  generalize hw : recordWrites (sh.mem, fmt.curHeader.bfmt) record = w at *
  have hpos'' := hpos' (by simp only; omega)
  simp only at hstart hfin' hle hpos''
  refine ⟨?_, ?_, ?_, ?_⟩
  · rw [hbfmt, hstart, hfin']
    exact hfin
  · rw [hbfmt, hfin']
    exact hpos''
  · rw [hbfmt, hsz, hstart]
    omega
  · rw [hnumber]
    omega

theorem shmEntryHeaderInit_fresh {header : XmShmEntryHeader} {size : Nat}
    (h : header.shmEntry.finish = header.shmEntry.start + size) (hasHeader : Bool) (entrySize : Nat) :
    FreshChunk size ⟨shmEntryHeaderInit header, hasHeader, entrySize⟩ := by
  by_cases hfull : xmBfFull (xmBfInit header.shmEntry.start header.shmEntry.finish) xmShmEntryHeaderLen
  · have hbf : (shmEntryHeaderInit header).bfmt =
        ⟨header.shmEntry.start, header.shmEntry.finish, header.shmEntry.finish⟩ := if_pos hfull
    have hlt : header.shmEntry.finish < header.shmEntry.start + 20 := hfull
    refine ⟨?_, ?_, rfl, rfl⟩ <;> simp only [hbf]
    · exact h
    · omega
  · have hbf : (shmEntryHeaderInit header).bfmt =
        ⟨header.shmEntry.start, header.shmEntry.start + 20, header.shmEntry.finish⟩ := if_neg hfull
    have hge : ¬ header.shmEntry.finish < header.shmEntry.start + 20 := hfull
    refine ⟨?_, ?_, rfl, rfl⟩ <;> simp only [hbf]
    · exact h
    · omega

theorem shmEntryHeaderCreate_fresh (h : (shmEntryHeaderCreate sh fmt).2.2 = true) :
    FreshChunk sh.header.shmEntrySize (shmEntryHeaderCreate sh fmt).2.1 := by
  cases hg : xmShmEntryGet (commitCurHeader sh fmt).1.header true with
  | none =>
    rw [shmEntryHeaderCreate_of_none hg] at h
    cases h
  | some entry =>
    have hentry := xmShmEntryGet_size hg
    rw [commitCurHeader_shmEntrySize] at hentry
    rw [shmEntryHeaderCreate_of_some hg]
    exact shmEntryHeaderInit_fresh hentry true _

end

/-! ## Runs -/

/-- A file with entries of any size that `_context_set` accepts. -/
structure StoreConf where
  pageShift : Nat
  fsize : Nat
  fentrySize : Nat
  page_le : pageShift ≤ 32
  entry_pos : 1 ≤ fentrySize
  entry_lt : fentrySize < 2 ^ 32

namespace StoreConf

variable (conf : StoreConf)

/-- The size of an entry as it is mapped. -/
def size : Nat := xmAlignUp conf.fentrySize conf.pageShift

def header : XmShmHeader := xmShmMmapCreate conf.fsize conf.fentrySize conf.pageShift

def start (mem : Mem) : Trace where
  sys := {
    shared := { mem := mem, header := conf.header }
    writer := xmShmFormatCreate conf.fentrySize
    reader := { curHeader := (xmShmFormatCreate 0).curHeader, shmIter := ⟨false, 0⟩ }
    pc := .prepare }
  accepted := []
  delivered := []
  committed := 0

theorem size_pos : 0 < conf.size := lt_of_lt_of_le conf.entry_pos (le_xmAlignUp _ _)

theorem size_le : conf.size ≤ 2 ^ 32 := xmAlignUp_le conf.page_le conf.entry_lt.le

theorem start_header (mem : Mem) : (conf.start mem).sys.shared.header = conf.header := rfl

theorem header_shmEntriesCountCur : conf.header.shmEntriesCountCur = 0 := rfl

theorem header_shmEntrySize : conf.header.shmEntrySize = conf.size := by
  have hpow : 2 ^ conf.pageShift ≤ 2 ^ 32 := Nat.pow_le_pow_right (by decide) conf.page_le
  have hlt := conf.entry_lt
  exact xmAlignUp64_eq (by omega)

end StoreConf

/-- A record of a length that its size can tell. -/
def ShmRecord.InRange (r : ShmRecord) : Prop := r.data.length < 2 ^ 32 - 21

/-- In every state that puts, flushes and reads lead to, a put of the record is all or nothing. -/
def AlwaysAllOrNothing (conf : StoreConf) (r : ShmRecord) : Prop :=
  ∀ mem ops, (∀ r', Op.put r' ∈ ops → r'.InRange) →
    AllOrNothing ((conf.start mem).run ops).sys.shared ((conf.start mem).run ops).sys.writer r

/-- The writer has no chunk, or one whose counters are right. -/
structure Counted (conf : StoreConf) (s : Sys) : Prop where
  chunk : s.writer.hasHeader = true → Chunk conf.size s.writer
  entrySize : s.writer.entrySize = conf.fentrySize
  shmEntrySize : s.shared.header.shmEntrySize = conf.size

section
variable {conf : StoreConf} {s : Sys} {r : ShmRecord}

theorem StoreConf.start_counted (conf : StoreConf) (mem : Mem) : Counted conf (conf.start mem).sys where
  chunk := nofun
  entrySize := Nat.mod_eq_of_lt conf.entry_lt
  shmEntrySize := conf.header_shmEntrySize

theorem recordSize_of_inRange (hr : r.InRange) : (entryRecordOf r).recordSize = 21 + r.data.length := by
  unfold ShmRecord.InRange at hr
  rw [entryRecordOf_recordSize, Nat.mod_eq_of_lt (by omega)]

theorem Counted.not_need (h : Counted conf s) (hr : r.InRange)
    (hneed : ¬ isNeedCreateEntryHeader s.writer (entryRecordOf r)) :
    Chunk conf.size s.writer ∧
      s.writer.curHeader.bfmt.pos + (21 + r.data.length) ≤ s.writer.curHeader.bfmt.finish := by
  obtain ⟨hh, hfull⟩ := not_or.mp hneed
  rw [recordSize_of_inRange hr] at hfull
  exact ⟨h.chunk ((Bool.not_eq_false _).mp hh), Nat.le_of_not_lt hfull⟩

/-- What is left after a header is created, or could not be. -/
theorem Counted.create (h : Counted conf s) (reader : XmShmReader) (pc : ReaderPc) :
    Counted conf ⟨(shmEntryHeaderCreate s.shared s.writer).1, (shmEntryHeaderCreate s.shared s.writer).2.1,
        reader, pc⟩ := by
  have hcr : Creates s.shared s.writer (shmEntryHeaderCreate s.shared s.writer) :=
    shmEntryHeaderCreate_creates (by rw [h.shmEntrySize]; exact conf.size_pos)
  refine ⟨fun hh => ?_, hcr.entrySize.trans h.entrySize, hcr.shmEntrySize.trans h.shmEntrySize⟩
  have hfresh := shmEntryHeaderCreate_fresh (hcr.hasHeader.symm.trans hh)
  rw [h.shmEntrySize] at hfresh
  exact hfresh.chunk

theorem Counted.put (h : Counted conf s) (hr : r.InRange) : Counted conf (putOp s r).1 := by
  by_cases hover : isRecordSizeOver s.writer (entryRecordOf r)
  · simp only [putOp, xmShmEntryRecordPutOnce, xmShmFormatPut, if_pos hover]
    exact h
  · by_cases hneed : isNeedCreateEntryHeader s.writer (entryRecordOf r)
    · simp only [putOp, xmShmEntryRecordPutOnce, xmShmFormatPut, if_neg hover, if_pos hneed]
      have hc := h.create s.reader s.pc
      cases hok : (shmEntryHeaderCreate s.shared s.writer).2.2 with
      | false => exact hc
      | true =>
        have hfresh := shmEntryHeaderCreate_fresh hok
        rw [h.shmEntrySize] at hfresh
        refine ⟨fun _ => hfresh.write conf.size_pos conf.size_le _, ?_, ?_⟩
        · exact shmRecordWrite_entrySize.trans hc.entrySize
        · exact (congrArg _ shmRecordWrite_header).trans hc.shmEntrySize
    · simp only [putOp, xmShmEntryRecordPutOnce, xmShmFormatPut, if_neg hover, if_neg hneed]
      obtain ⟨hchunk, hfit⟩ := h.not_need hr hneed
      refine ⟨fun _ => (hchunk.append s.shared conf.size_le hfit).2, ?_, ?_⟩
      · exact shmRecordWrite_entrySize.trans h.entrySize
      · exact (congrArg _ shmRecordWrite_header).trans h.shmEntrySize

theorem Counted.flush (h : Counted conf s) : Counted conf (flushOp s) := by
  by_cases hcan : canBeenFlush s.writer
  · simp only [flushOp, xmShmFormatFlush, if_pos hcan]
    have hc := h.create s.reader s.pc
    cases hok : (shmEntryHeaderCreate s.shared s.writer).2.2 with
    | false =>
      simp only [Bool.false_eq_true, if_false]
      exact ⟨fun hh => absurd hh Bool.false_ne_true, hc.entrySize, hc.shmEntrySize⟩
    | true =>
      simp only [if_true]
      exact hc
  · simp only [flushOp, xmShmFormatFlush, if_neg hcan]
    exact h

theorem Counted.read (h : Counted conf s) : Counted conf (readOp s).1 := by
  refine ⟨?_, ?_, ?_⟩
  · rw [readOp_writer]
    exact h.chunk
  · rw [readOp_writer]
    exact h.entrySize
  · rw [readOp_shmEntrySize]
    exact h.shmEntrySize

theorem Counted.run {t : Trace} (h : Counted conf t.sys) {ops : List Op}
    (hops : ∀ r', Op.put r' ∈ ops → r'.InRange) : Counted conf (t.run ops).sys := by
  induction ops generalizing t with
  | nil => exact h
  | cons op ops ih =>
    refine ih (t := t.step op) ?_ fun r' hr' => hops r' (List.mem_cons_of_mem _ hr')
    cases op with
    | put r' => exact h.put (hops r' List.mem_cons_self)
    | flush => exact h.flush
    | read => exact h.read

/-! ## All or nothing -/

section
variable {sh : Shared} {fmt : XmShmFormat} {record : XmShmEntryRecord}

theorem xmShmFormatPut_of_over (hover : isRecordSizeOver fmt record) :
    xmShmFormatPut sh fmt record = (sh, fmt, -2) := if_pos hover

theorem xmShmFormatPut_of_fail (hover : ¬ isRecordSizeOver fmt record)
    (hneed : isNeedCreateEntryHeader fmt record) (hfail : (shmEntryHeaderCreate sh fmt).2.2 = false) :
    (xmShmFormatPut sh fmt record).2.2 = -1 := by
  simp only [xmShmFormatPut, if_neg hover, if_pos hneed, hfail, Bool.false_eq_true, if_false]

theorem xmShmFormatPut_of_write (hover : ¬ isRecordSizeOver fmt record)
    (hok : isNeedCreateEntryHeader fmt record → (shmEntryHeaderCreate sh fmt).2.2 = true) :
    xmShmFormatPut sh fmt record =
      ((shmRecordWrite (writeTarget sh fmt record).1 (writeTarget sh fmt record).2 record).1,
        (shmRecordWrite (writeTarget sh fmt record).1 (writeTarget sh fmt record).2 record).2, 0) := by
  by_cases hneed : isNeedCreateEntryHeader fmt record
  · simp only [xmShmFormatPut, writeTarget, if_neg hover, if_pos hneed, hok hneed, if_true]
  · simp only [xmShmFormatPut, writeTarget, if_neg hover, if_neg hneed]

theorem allOrNothing_of_rc {rc : Int} (hrc : (xmShmFormatPut sh fmt (entryRecordOf r)).2.2 = rc) (h0 : rc ≠ 0)
    (h2 : rc = -2 → (xmShmFormatPut sh fmt (entryRecordOf r)).1 = sh ∧
      (xmShmFormatPut sh fmt (entryRecordOf r)).2.1 = fmt) : AllOrNothing sh fmt r where
  all h := absurd (hrc.symm.trans h) h0
  nothing h := h2 (hrc.symm.trans h)

/-- With an entry to write to, the put is all or nothing if the write appends the record. -/
theorem allOrNothing_of_write (hover : ¬ isRecordSizeOver fmt (entryRecordOf r))
    (hok : isNeedCreateEntryHeader fmt (entryRecordOf r) → (shmEntryHeaderCreate sh fmt).2.2 = true)
    (happ : ∀ sh', Appended sh' (writeTarget sh fmt (entryRecordOf r)).2 r
      (shmRecordWrite sh' (writeTarget sh fmt (entryRecordOf r)).2 (entryRecordOf r)).1
      (shmRecordWrite sh' (writeTarget sh fmt (entryRecordOf r)).2 (entryRecordOf r)).2) :
    AllOrNothing sh fmt r := by
  have hput := xmShmFormatPut_of_write hover hok
  refine ⟨fun _ => ?_, fun h2 => ?_⟩
  · rw [hput]
    exact happ _
  · rw [hput] at h2
    cases h2

end

theorem Counted.allOrNothing (h : Counted conf s) (hr : r.InRange)
    (hfit : ¬ isRecordSizeOver s.writer (entryRecordOf r) → 41 + r.data.length ≤ conf.size) :
    AllOrNothing s.shared s.writer r := by
  by_cases hover : isRecordSizeOver s.writer (entryRecordOf r)
  · have hput : xmShmFormatPut s.shared s.writer (entryRecordOf r) = (s.shared, s.writer, -2) :=
      xmShmFormatPut_of_over hover
    have hrc : (xmShmFormatPut s.shared s.writer (entryRecordOf r)).2.2 = -2 := by rw [hput]
    refine allOrNothing_of_rc hrc (by decide) fun _ => ?_
    rw [hput]
    exact ⟨rfl, rfl⟩
  by_cases hneed : isNeedCreateEntryHeader s.writer (entryRecordOf r)
  · cases hok : (shmEntryHeaderCreate s.shared s.writer).2.2 with
    | false => exact allOrNothing_of_rc (xmShmFormatPut_of_fail hover hneed hok) (by decide) (absurd · (by decide))
    | true =>
      have hsize := hfit hover
      have hfresh := shmEntryHeaderCreate_fresh hok
      rw [h.shmEntrySize] at hfresh
      refine allOrNothing_of_write hover (fun _ => hok) fun sh' => ?_
      rw [writeTarget, if_pos hneed]
      exact (hfresh.chunk.append sh' conf.size_le (by rw [hfresh.pos, hfresh.finish]; omega)).1
  · obtain ⟨hchunk, hroom⟩ := h.not_need hr hneed
    refine allOrNothing_of_write hover (fun hn => absurd hn hneed) fun sh' => ?_
    rw [writeTarget, if_neg hneed]
    exact (hchunk.append sh' conf.size_le hroom).1

theorem isRecordSizeOver_iff_wrapped {fmt : XmShmFormat} (hr : r.InRange) (hentry : fmt.entrySize = conf.fentrySize) :
    isRecordSizeOver fmt (entryRecordOf r) ↔
      if 20 ≤ conf.fentrySize then conf.fentrySize < 41 + r.data.length
      else 2 ^ 32 - 20 + conf.fentrySize < 21 + r.data.length := by
  have hlt := conf.entry_lt
  rw [isRecordSizeOver, recordSize_of_inRange hr, hentry, xmShmEntryHeaderLen]
  split <;> omega

theorem StoreConf.start_entryless (conf : StoreConf) (mem : Mem) (hcount : conf.header.shmEntriesCount = 0) :
    Entryless (conf.start mem).sys := ⟨hcount, rfl, rfl, rfl⟩

/-- A ring without entries takes no record. -/
theorem Entryless.allOrNothing (h : Entryless s) : AllOrNothing s.shared s.writer r := by
  have hput := h.formatPut r
  have hrc : (xmShmFormatPut s.shared s.writer (entryRecordOf r)).2.2 =
      if isRecordSizeOver s.writer (entryRecordOf r) then -2 else -1 := by rw [hput]
  refine allOrNothing_of_rc hrc (by split <;> decide) fun _ => ?_
  rw [hput]
  exact ⟨rfl, rfl⟩

/-- A put that creates a header is all or nothing only if the record fits behind it. -/
theorem Counted.first_put (h : Counted conf s) (hh : s.writer.hasHeader = false)
    (hfull : xmShmFull s.shared.header = false) (hover : ¬ isRecordSizeOver s.writer (entryRecordOf r))
    (hall : AllOrNothing s.shared s.writer r) : 41 + r.data.length ≤ conf.size := by
  have hneed : isNeedCreateEntryHeader s.writer (entryRecordOf r) := Or.inl hh
  have hok : (shmEntryHeaderCreate s.shared s.writer).2.2 = true := by
    rw [shmEntryHeaderCreate_succeeds, commitCurHeader_of_not_hasHeader hh, hfull, Bool.not_false]
  have hput := xmShmFormatPut_of_write hover fun _ => hok
  have hrcs := (hall.all (congrArg (·.2.2) hput)).rcs
  have hfresh := shmEntryHeaderCreate_fresh hok
  rw [recordWriteRcs_ne_iff, writeTarget, if_pos hneed] at hrcs
  rw [h.shmEntrySize] at hfresh
  simp only [hfresh.pos, hfresh.finish] at hrcs
  omega

theorem start_put (conf : StoreConf) (mem : Mem) (hpos : 0 < conf.header.shmEntriesCount)
    (hover : ¬ isRecordSizeOver (conf.start mem).sys.writer (entryRecordOf r))
    (h : AllOrNothing (conf.start mem).sys.shared (conf.start mem).sys.writer r) :
    41 + r.data.length ≤ conf.size := by
  refine (conf.start_counted mem).first_put rfl ?_ hover h
  rw [conf.start_header, xmShmFull, conf.header_shmEntriesCountCur]
  exact decide_eq_false hpos.ne

/-- Puts of the record are always all or nothing exactly when the file holds no entry, or the entries hold a header
at least, or the record fits behind a header into a mapped entry, or the size that a record may have does not reach
it even as it wraps. -/
theorem xmShmFormatPut_all_or_nothing_iff (conf : StoreConf) {r : ShmRecord} (hr : r.InRange) :
    AlwaysAllOrNothing conf r ↔
      conf.header.shmEntriesCount = 0 ∨ 20 ≤ conf.fentrySize ∨ 41 + r.data.length ≤ conf.size ∨
        2 ^ 32 - 20 + conf.fentrySize < 21 + r.data.length := by
  have hle : conf.fentrySize ≤ conf.size := le_xmAlignUp _ _
  constructor
  · intro h
    by_contra hno
    have hpos : 0 < conf.header.shmEntriesCount := by omega
    have hover : ¬ isRecordSizeOver (conf.start fun _ => 0).sys.writer (entryRecordOf r) := by
      rw [isRecordSizeOver_iff_wrapped hr (conf.start_counted _).entrySize]
      split <;> omega
    exact hno (Or.inr (Or.inr (Or.inl (start_put conf _ hpos hover (h _ [] nofun)))))
  · rintro (hcount | hcond) mem ops hops
    · exact ((conf.start_entryless mem hcount).run ops).allOrNothing
    · have hs := (conf.start_counted mem).run hops
      refine hs.allOrNothing hr fun hover => ?_
      rw [isRecordSizeOver_iff_wrapped hr hs.entrySize] at hover
      split at hover <;> omega

end

/-- Entries of 4096 bytes that are asked for as one byte. -/
def byteConf : StoreConf where
  pageShift := 12
  fsize := 2 ^ 20
  fentrySize := 1
  page_le := by decide
  entry_pos := by decide
  entry_lt := by decide

theorem xmShmFormatPut_all_or_nothing_iff_byte :
    AlwaysAllOrNothing byteConf ⟨2, [0x75, 0x64, 0x70]⟩ ↔
      byteConf.header.shmEntriesCount = 0 ∨ 20 ≤ byteConf.fentrySize ∨ 41 + 3 ≤ byteConf.size ∨
        2 ^ 32 - 20 + byteConf.fentrySize < 21 + 3 :=
  xmShmFormatPut_all_or_nothing_iff byteConf (r := ⟨2, [0x75, 0x64, 0x70]⟩) (by unfold ShmRecord.InRange; decide)

theorem byteConf_cut_off {r : ShmRecord} (hlen : r.data.length = 4056) : ¬ AlwaysAllOrNothing byteConf r := by
  intro h
  have hr : r.InRange := by
    rw [ShmRecord.InRange, hlen]
    decide
  have hover : ¬ isRecordSizeOver (byteConf.start fun _ => 0).sys.writer (entryRecordOf r) := by
    rw [isRecordSizeOver_iff_wrapped hr (byteConf.start_counted _).entrySize, hlen]
    decide
  have hle := start_put byteConf _ (by decide) hover (h _ [] nofun)
  rw [hlen] at hle
  exact absurd hle (by decide)

/-- A record of 4056 bytes is one byte too long for its entry, and is accepted. -/
theorem xmShmFormatPut_cut_off : ¬ AlwaysAllOrNothing byteConf ⟨0, List.replicate 4056 0⟩ :=
  byteConf_cut_off List.length_replicate

end Xmap.Shm
