import Xmap.Shm.Lemmas.Refines

/-!
# The writer refines commit, create and accept

Each operation of the writer commits its chunk, creates one or accepts a record, or does some of these
one after another.
-/

namespace Xmap.Shm

open Xmap.Lib

variable {conf : ShmConf} {s : Sys} {a : ChunkStream ShmRecord}

/-! ## The header of the ring -/

theorem ShmConf.headerAt_commit {n len : Nat} (hlen : len < conf.count) :
    xmShmEntryPosUpdate (conf.headerAt n len) true = conf.headerAt n (len + 1) := by
  have := conf.count_lt
  simp only [xmShmEntryPosUpdate, XmShmHeader.stepPos, addCount, ShmConf.headerAt, if_true]
  rw [Nat.mod_eq_of_lt (by omega), show conf.header.shmEntriesCount = conf.count from rfl, slot_succ]

theorem ShmConf.get_headerAt {n len : Nat} :
    xmShmEntryGet (conf.headerAt n len) true =
      if len = conf.count then none
      else some ⟨slot conf.count n len, conf.addr (slot conf.count n len),
        conf.addr (slot conf.count n len) + conf.size⟩ := by
  have hfull : xmShmFull (conf.headerAt n len) = decide (len = conf.count) := rfl
  by_cases h : len = conf.count
  · rw [if_pos h, xmShmEntryGet, shmEntryCanGet, hfull, decide_eq_true h]
    rfl
  · simp only [xmShmEntryGet, shmEntryCanGet, hfull, h, decide_false, Bool.and_false,
      Bool.not_true, Bool.false_and, if_true, if_false, Bool.false_eq_true]
    rfl

/-! ## Commit -/

theorem Refines.hasHeader (h : Refines conf s a) : s.writer.hasHeader = a.current.isSome := by
  have hw := h.writer
  cases hc : a.current with
  | none => rwa [hc] at hw
  | some c =>
    rw [hc] at hw
    exact hw.hasHeader

theorem Writing.headerBytes {m : Mem} {i : Nat} {fmt : XmShmFormat} {c : List ShmRecord}
    (hw : Writing conf m i fmt c) :
    headerBytes fmt.curHeader = encHeader c.length (encChunk c).length := by
  rw [Xmap.Shm.headerBytes, hw.magic, hw.majorVersion, hw.minorVersion, hw.entriesNumber,
    hw.entriesSize]
  rfl

/-- The header in front of the records makes the writer's chunk a committed one. -/
theorem Writing.stored {m : Mem} {i : Nat} {fmt : XmShmFormat} {c : List ShmRecord}
    (hw : Writing conf m i fmt c) :
    Stored conf (m.write (conf.addr i) (Xmap.Shm.headerBytes fmt.curHeader)) i c where
  le_size := hw.le_size
  holds := by
    rw [hw.headerBytes, Mem.holds_append, length_encHeader]
    refine ⟨Mem.holds_write_self, hw.holds.write (Or.inr ?_)⟩
    rw [length_encHeader]

def commitSys (s : Sys) : Sys :=
  let w := commitCurHeader s.shared s.writer
  { s with shared := w.1, writer := w.2 }

theorem Refines.commit (h : Refines conf s a) : Refines conf (commitSys s) a.commit := by
  have hw := h.writer
  cases hc : a.current with
  | none =>
    have hh : s.writer.hasHeader = false := by rw [h.hasHeader, hc]; rfl
    have hs : commitSys s = s := by simp [commitSys, commitCurHeader, hh]
    have ha : a.commit = a := by
      obtain ⟨released, queue, current, cursor, fits⟩ := a
      cases hc
      simp [ChunkStream.commit]
    rwa [hs, ha]
  | some c =>
    rw [hc] at hw
    have hlt : a.queue.length < conf.count := h.room (by rw [hc]; exact Option.some_ne_none c)
    have hle := hw.le_size
    have hcommit : commitSys s = { s with
        shared := { mem := s.shared.mem.write (conf.addr (slot conf.count a.released.length
            a.queue.length)) (Xmap.Shm.headerBytes s.writer.curHeader)
                    header := conf.headerAt a.released.length (a.queue.length + 1) }
        writer := { s.writer with
          curHeader := (shmEntryHeaderCommit s.shared s.writer.curHeader).2, hasHeader := false } } := by
      have hfits : s.writer.curHeader.bfmt.start + 20 ≤ s.writer.curHeader.bfmt.finish := by
        rw [hw.bfmt]
        exact Nat.add_le_add_left (by omega) _
      simp only [commitSys, commitCurHeader, hw.hasHeader, if_true, shmEntryHeaderCommit_eq hfits,
        hw.bfmt, h.header, ShmConf.headerAt_commit hlt]
    rw [hcommit]
    have hqueue : a.commit.queue = a.queue ++ [c] := by simp [ChunkStream.commit, hc]
    have hlen : a.commit.queue.length = a.queue.length + 1 := by simp [hqueue]
    refine ⟨?_, ?_, fun hn => absurd rfl hn, h.entrySize, fun j d hj => ?_, rfl, ?_⟩
    · rw [hlen]
      rfl
    · rw [hlen]
      exact hlt
    · rw [hqueue] at hj
      by_cases hjl : j < a.queue.length
      · rw [List.getElem?_append_left hjl] at hj
        refine (h.stored j d hj).write (fun he => ?_) le_rfl ?_
        · have := slot_inj (by omega) hlt he
          omega
        · rw [hw.headerBytes, length_encHeader]
          omega
      · obtain ⟨rfl, rfl⟩ : j = a.queue.length ∧ d = c := by
          rw [List.getElem?_append_right (by omega)] at hj
          obtain ⟨hz, hd⟩ := List.getElem?_eq_some_iff.mp hj
          simp only [List.length_singleton] at hz
          simp only [List.getElem_singleton] at hd
          exact ⟨by omega, hd.symm⟩
        exact hw.stored
    · exact h.reader.append a.fits _

/-! ## Create -/

/-- The header of the next entry. -/
def createSys (s : Sys) (entry : XmShmEntry) : Sys :=
  { s with writer := { s.writer with
      curHeader := shmEntryHeaderInit { s.writer.curHeader with shmEntry := entry }
      hasHeader := true } }

theorem Refines.create (h : Refines conf s a) {entry : XmShmEntry}
    (he : xmShmEntryGet s.shared.header true = some entry) :
    Refines conf (createSys s entry) a.create := by
  rw [h.header, ShmConf.get_headerAt] at he
  have hlt : a.queue.length < conf.count := by
    refine lt_of_le_of_ne h.le_count fun heq => ?_
    rw [if_pos heq] at he
    cases he
  rw [if_neg hlt.ne] at he
  cases he
  refine ⟨h.header, h.le_count, fun _ => hlt, h.entrySize, h.stored, ?_, h.reader⟩
  have hsize : 20 ≤ conf.size := conf.header_le.trans conf.fentrySize_le
  refine ⟨rfl, ?_, ?_, rfl, rfl, rfl, rfl, rfl, Mem.holds_nil⟩
  · have hfit : ¬ xmBfFull (xmBfInit (conf.addr (slot conf.count a.released.length a.queue.length))
        (conf.addr (slot conf.count a.released.length a.queue.length) + conf.size))
        xmShmEntryHeaderLen := by
      simp only [xmBfFull, xmBfInit, xmShmEntryHeaderLen]
      omega
    simp only [createSys, shmEntryHeaderInit, xmBfSkip, if_neg hfit]
    rfl
  · simpa [encChunk] using hsize

/-- `_shm_entry_header_create` commits and, unless the ring is full, creates. -/
theorem Refines.headerCreate (h : Refines conf s a) :
    ∃ sh fmt, (shmEntryHeaderCreate s.shared s.writer = (sh, fmt, false) ∧
        fmt.hasHeader = false ∧ Refines conf { s with shared := sh, writer := fmt } a.commit) ∨
      shmEntryHeaderCreate s.shared s.writer = (sh, fmt, true) ∧
        Refines conf { s with shared := sh, writer := fmt } a.commit.create := by
  have hc := h.commit
  cases hg : xmShmEntryGet (commitCurHeader s.shared s.writer).1.header true with
  | none =>
    refine ⟨_, _, Or.inl ⟨by rw [shmEntryHeaderCreate, hg], ?_, hc⟩⟩
    exact hc.hasHeader
  | some entry =>
    exact ⟨_, _, Or.inr ⟨by rw [shmEntryHeaderCreate, hg]; rfl, hc.create hg⟩⟩

/-! ## Accept -/

def recordSys (s : Sys) (r : ShmRecord) : Sys :=
  let w := shmRecordWrite s.shared s.writer (entryRecordOf r)
  { s with shared := w.1, writer := w.2 }

theorem recordSys_eq {r : ShmRecord} {bs : List UInt8} {start len finish : Nat}
    (hbf : s.writer.curHeader.bfmt = ⟨start, start + len, finish⟩)
    (h : recordWrites (s.shared.mem, ⟨start, start + len, finish⟩) (entryRecordOf r) =
      doWrite (s.shared.mem, ⟨start, start + len, finish⟩) bs) :
    recordSys s r =
      ⟨⟨s.shared.mem.write (start + len) bs, s.shared.header⟩,
        ⟨⟨s.writer.curHeader.shmEntry, ⟨start, start + (len + bs.length), finish⟩,
            s.writer.curHeader.magic, s.writer.curHeader.majorVersion,
            s.writer.curHeader.minorVersion, (s.writer.curHeader.entriesNumber + 1) % 2 ^ 32,
            (s.writer.curHeader.entriesSize +
              ((len + bs.length) % 2 ^ 32 + 2 ^ 32 - len % 2 ^ 32)) % 2 ^ 32⟩,
          s.writer.hasHeader, s.writer.entrySize⟩, s.reader, s.pc⟩ := by
  simp only [recordSys, shmRecordWrite, hbf, h, doWrite, xmBfPosUpdate, xmBfContentSize,
    Nat.add_assoc, Nat.add_sub_cancel_left]

theorem Refines.accept (h : Refines conf s a) {c : List ShmRecord} (hc : a.current = some c)
    {r : ShmRecord} (hfit : ¬ xmBfFull s.writer.curHeader.bfmt (21 + r.data.length)) :
    Refines conf (recordSys s r) (a.accept r) := by
  have hw := h.writer
  rw [hc] at hw
  generalize hi : slot conf.count a.released.length a.queue.length = i at hw
  have hlt : a.queue.length < conf.count := h.room (by rw [hc]; exact Option.some_ne_none c)
  have hsize := conf.size_le
  have hle := hw.le_size
  rw [hw.bfmt] at hfit
  simp only [xmBfFull, Nat.not_lt] at hfit
  have hlen : (encChunk (c ++ [r])).length = (encChunk c).length + (21 + r.data.length) := by
    simp
  have hnum := length_le_encChunk (c ++ [r])
  rw [List.length_append, List.length_singleton] at hnum
  have hn : (c.length + 1) % 2 ^ 32 = c.length + 1 := Nat.mod_eq_of_lt (by omega)
  have hs : ((encChunk c).length + ((20 + (encChunk c).length + (21 + r.data.length)) % 2 ^ 32 +
      2 ^ 32 - (20 + (encChunk c).length) % 2 ^ 32)) % 2 ^ 32 = (encChunk (c ++ [r])).length := by
    omega
  have hpos : 20 + (encChunk c).length + (21 + r.data.length) =
      20 + (encChunk (c ++ [r])).length := by omega
  rw [recordSys_eq hw.bfmt (recordWrites_eq hfit), length_encRecord, hw.entriesNumber,
    hw.entriesSize, hn, hs, hpos, show c.length + 1 = (c ++ [r]).length by simp]
  have hcur : (a.accept r).current = some (c ++ [r]) := by simp [ChunkStream.accept, hc]
  refine ⟨h.header, h.le_count, fun _ => hlt, h.entrySize, fun j d hj => ?_, ?_, h.reader⟩
  · have hjl : j < a.queue.length := (List.getElem?_eq_some_iff.mp hj).1
    refine (h.stored j d hj).write (j := i) (fun he => ?_) (by omega) ?_
    · have := slot_inj (by omega) hlt (he.trans hi.symm)
      omega
    · rw [length_encRecord]
      omega
  · rw [hcur]
    show Writing conf _ (slot conf.count a.released.length a.queue.length) _ _
    rw [hi]
    refine ⟨hw.hasHeader, rfl, by omega, hw.magic, hw.majorVersion, hw.minorVersion, rfl, rfl, ?_⟩
    rw [encChunk_append, encChunk_singleton, Mem.holds_append, Nat.add_assoc]
    refine ⟨hw.holds.write (Or.inl (by omega)), ?_⟩
    exact Mem.holds_write_self

/-! ## Put and flush -/

/-- The size of the record is not cut to 32 bits, or what is left of it is still too large. -/
def ShmConf.Sound (conf : ShmConf) (r : ShmRecord) : Prop :=
  2 ^ 32 ≤ 21 + r.data.length → conf.fentrySize - 20 < (21 + r.data.length) % 2 ^ 32

theorem isRecordSizeOver_iff {fmt : XmShmFormat} (he : fmt.entrySize = conf.fentrySize)
    (r : ShmRecord) :
    isRecordSizeOver fmt (entryRecordOf r) ↔
      conf.fentrySize - 20 < (21 + r.data.length) % 2 ^ 32 := by
  have hle := conf.header_le
  have hlt := conf.entry_lt
  rw [xmShmEntryHeaderLen] at hle
  have hrem : (conf.fentrySize + 2 ^ 64 - 20) % 2 ^ 32 = conf.fentrySize - 20 := by omega
  rw [isRecordSizeOver, he, xmShmEntryHeaderLen, hrem, entryRecordOf_recordSize]

theorem putOp_create {r : ShmRecord} {sh : Shared} {fmt : XmShmFormat}
    (hover : ¬ isRecordSizeOver s.writer (entryRecordOf r))
    (hneed : isNeedCreateEntryHeader s.writer (entryRecordOf r))
    (hcr : shmEntryHeaderCreate s.shared s.writer = (sh, fmt, true)) :
    putOp s r = (recordSys { s with shared := sh, writer := fmt } r, 0) := by
  rw [putOp, xmShmEntryRecordPutOnce, xmShmFormatPut, if_neg hover, if_pos hneed, hcr]
  rfl

/-- A put accepts the record exactly when it returns 0. -/
theorem Refines.put (h : Refines conf s a) {r : ShmRecord} (hr : conf.Sound r) :
    ∃ b, Refines conf (putOp s r).1 b ∧
      ChunkStream.WriterStep a b (if (putOp s r).2 = 0 then [r] else []) := by
  by_cases hover : isRecordSizeOver s.writer (entryRecordOf r)
  · have hput : putOp s r = (s, -2) := by
      rw [putOp, xmShmEntryRecordPutOnce, xmShmFormatPut, if_pos hover]
    rw [hput]
    exact ⟨a, h, ChunkStream.WriterStep.refl a⟩
  · have hsize : 21 + r.data.length ≤ conf.fentrySize - 20 ∧
        (entryRecordOf r).recordSize = 21 + r.data.length := by
      rw [isRecordSizeOver_iff h.entrySize] at hover
      have hlt : 21 + r.data.length < 2 ^ 32 := by
        by_contra hge
        exact hover (hr (by omega))
      rw [Nat.mod_eq_of_lt hlt] at hover
      exact ⟨by omega, by rw [entryRecordOf_recordSize, Nat.mod_eq_of_lt hlt]⟩
    obtain ⟨hle, hrec⟩ := hsize
    by_cases hneed : isNeedCreateEntryHeader s.writer (entryRecordOf r)
    · obtain ⟨sh, fmt, ⟨hcr, _, hb⟩ | ⟨hcr, hb⟩⟩ := h.headerCreate
      · have hput : putOp s r = ({ s with shared := sh, writer := fmt }, -1) := by
          rw [putOp, xmShmEntryRecordPutOnce, xmShmFormatPut, if_neg hover, if_pos hneed, hcr]
          rfl
        rw [hput]
        exact ⟨_, hb, ChunkStream.WriterStep.commit a⟩
      · rw [putOp_create hover hneed hcr]
        refine ⟨_, hb.accept rfl ?_, ?_⟩
        · -- a new entry has room for every record that is not too large
          obtain ⟨i, hbf⟩ : ∃ i, fmt.curHeader.bfmt =
              ⟨conf.addr i, conf.addr i + 20, conf.addr i + conf.size⟩ := ⟨_, Writing.bfmt hb.writer⟩
          have hsize := conf.fentrySize_le
          have hhead := conf.header_le
          rw [xmShmEntryHeaderLen] at hhead
          show ¬ fmt.curHeader.bfmt.finish < fmt.curHeader.bfmt.pos + (21 + r.data.length)
          rw [hbf]
          show ¬ conf.addr i + conf.size < conf.addr i + 20 + (21 + r.data.length)
          omega
        · exact ((ChunkStream.WriterStep.commit a).create rfl).accept rfl r
    · obtain ⟨hh, hfull⟩ := not_or.mp hneed
      rw [hrec] at hfull
      obtain ⟨c, hc⟩ : ∃ c, a.current = some c := by
        rw [h.hasHeader, Bool.not_eq_false] at hh
        exact Option.isSome_iff_exists.mp hh
      have hput : putOp s r = (recordSys s r, 0) := by
        rw [putOp, xmShmEntryRecordPutOnce, xmShmFormatPut, if_neg hover, if_neg hneed]
        rfl
      rw [hput]
      exact ⟨_, h.accept hc hfull, (ChunkStream.WriterStep.refl a).accept hc r⟩

/-- A flush commits all that was accepted. -/
theorem Refines.flush (h : Refines conf s a) :
    ∃ b, Refines conf (flushOp s) b ∧ ChunkStream.WriterStep a b [] ∧ b.committed = a.accepted := by
  by_cases hcan : canBeenFlush s.writer
  · obtain ⟨sh, fmt, ⟨hcr, hh, hb⟩ | ⟨hcr, hb⟩⟩ := h.headerCreate
    · have hflush : flushOp s = { s with shared := sh, writer := fmt } := by
        rw [flushOp, xmShmFormatFlush, if_pos hcan, hcr]
        simp [← hh]
      rw [hflush]
      exact ⟨_, hb, ChunkStream.WriterStep.commit a, ChunkStream.commit_committed a⟩
    · have hflush : flushOp s = { s with shared := sh, writer := fmt } := by
        rw [flushOp, xmShmFormatFlush, if_pos hcan, hcr]
        rfl
      rw [hflush]
      exact ⟨_, hb, (ChunkStream.WriterStep.commit a).create rfl, ChunkStream.commit_committed a⟩
  · have hflush : flushOp s = s := by
      rw [flushOp, xmShmFormatFlush, if_neg hcan]
    have hnone : a.current = none := by
      cases hc : a.current with
      | none => rfl
      | some c =>
        have hw := h.writer
        rw [hc] at hw
        refine absurd ⟨hw.hasHeader, ?_⟩ hcan
        simp only [xmBfEmpty, hw.bfmt]
        omega
    rw [hflush]
    refine ⟨a, h, ChunkStream.WriterStep.refl a, ?_⟩
    rw [ChunkStream.accepted, hnone]
    exact (List.append_nil _).symm

end Xmap.Shm
