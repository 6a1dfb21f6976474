import Xmap.Shm.Stream

/-!
# The bytes of an entry

What the writes of the format leave in an entry, and what the reads get from such bytes.
-/

namespace Xmap.Shm

open Xmap.Lib

/-! ## Buffers -/

section
variable {sz v : Nat} {m : Mem} {bf : XmBinFormat} {w : Mem × XmBinFormat} {bs : List UInt8}

theorem doWrite_doWrite (cs : List UInt8) : doWrite (doWrite w bs) cs = doWrite w (bs ++ cs) := by
  simp only [doWrite, xmBfPosUpdate, Mem.write_append, List.length_append, Nat.add_assoc]

theorem xmBfValueWrite_eq (h : w.2.pos + sz ≤ w.2.finish) :
    xmBfValueWrite sz w v = doWrite w (toBE sz v) := if_neg (by omega)

theorem xmBfValueWrite_doWrite (h : w.2.pos + (bs.length + sz) ≤ w.2.finish) :
    xmBfValueWrite sz (doWrite w bs) v = doWrite w (bs ++ toBE sz v) := by
  rw [xmBfValueWrite_eq, doWrite_doWrite]
  show w.2.pos + bs.length + sz ≤ w.2.finish
  omega

theorem xmBfBytesWrite_doWrite {cs : List UInt8}
    (h : w.2.pos + (bs.length + (8 + cs.length)) ≤ w.2.finish) :
    xmBfBytesWrite (doWrite w bs) cs = doWrite w (bs ++ (toBE 8 cs.length ++ cs)) := by
  have hfit : ¬ xmBfFull (doWrite w bs).2 (cs.length + 8) := by
    show ¬ w.2.finish < w.2.pos + bs.length + (cs.length + 8)
    omega
  rw [xmBfBytesWrite, if_neg hfit, xmBfSizeWrite, xmBfValueWrite_doWrite (by omega),
    doWrite_doWrite, List.append_assoc]

theorem xmBfValueRead_eq (n : Nat) (hv : v < 2 ^ (8 * sz)) (hm : m.Holds (bf.pos + n) (toBE sz v))
    (h : bf.pos + (n + sz) ≤ bf.finish) :
    xmBfValueRead sz m (xmBfPosUpdate bf n) = (v, xmBfPosUpdate bf (n + sz)) := by
  have hfit : ¬ xmBfFull (xmBfPosUpdate bf n) sz := by
    show ¬ bf.finish < bf.pos + n + sz
    omega
  rw [Mem.Holds, length_toBE] at hm
  rw [xmBfValueRead, if_neg hfit]
  simp only [xmBfPosUpdate, hm, ofBE_toBE_of_lt hv, Nat.add_assoc]

theorem xmBfBytesRead_eq (n : Nat) (hb : bs.length < 2 ^ 64)
    (hm : m.Holds (bf.pos + n) (toBE 8 bs.length ++ bs)) (h : bf.pos + (n + 8) ≤ bf.finish) :
    xmBfBytesRead m (xmBfPosUpdate bf n) = (bs, xmBfPosUpdate bf (n + (8 + bs.length))) := by
  obtain ⟨hlen, hdata⟩ := Mem.holds_append.mp hm
  have hfit : ¬ xmBfFull (xmBfPosUpdate bf n) 8 := by
    show ¬ bf.finish < bf.pos + n + 8
    omega
  rw [length_toBE, Mem.Holds, Nat.add_assoc] at hdata
  rw [xmBfBytesRead, if_neg hfit, xmBfSizeRead, xmBfValueRead_eq n hb hlen h]
  simp only [xmBfPosUpdate, hdata, Nat.add_assoc]

end

/-! ## Records -/

/-- The bytes of a record. -/
def encRecord (r : ShmRecord) : List UInt8 :=
  toBE 4 EIMAGIC ++ (toBE 4 ((r.data.length + 21) % 2 ^ 32) ++ (toBE 1 r.type.toNat ++
    (toBE 4 0 ++ (toBE 8 r.data.length ++ r.data))))

/-- The bytes of the header of an entry with a number of records and their size. -/
def encHeader (number size : Nat) : List UInt8 :=
  toBE 4 FIMAGIC ++ (toBE 4 MAJOR_VERSION ++ (toBE 4 MINJOR_VERSION ++ (toBE 4 number ++
    toBE 4 size)))

@[simp] theorem length_encRecord (r : ShmRecord) : (encRecord r).length = 21 + r.data.length := by
  simp [encRecord]
  omega

@[simp] theorem length_encHeader (number size : Nat) : (encHeader number size).length = 20 := by
  simp [encHeader]

section
variable {m : Mem} {bf : XmBinFormat} {r : ShmRecord}

theorem entryRecordOf_recordSize :
    (entryRecordOf r).recordSize = (21 + r.data.length) % 2 ^ 32 := by
  simp only [entryRecordOf, xmShmEntryRecordHeaderSize, Nat.reduceMul, Nat.reduceAdd]

theorem recordWrites_eq (h : bf.pos + (21 + r.data.length) ≤ bf.finish) :
    recordWrites (m, bf) (entryRecordOf r) = doWrite (m, bf) (encRecord r) := by
  simp only [recordWrites, xmBfUint32Write, xmBfUint8Write]
  rw [xmBfValueWrite_eq (w := (m, bf)) (by show bf.pos + 4 ≤ bf.finish; omega),
    xmBfValueWrite_doWrite (by simp; omega), xmBfValueWrite_doWrite (by simp; omega),
    xmBfValueWrite_doWrite (by simp; omega),
    xmBfBytesWrite_doWrite (by simp [entryRecordOf]; omega)]
  simp only [List.append_assoc]
  rfl

theorem recordRead_eq (rd : XmShmReader) (hlen : r.data.length < 2 ^ 32)
    (hm : m.Holds rd.curHeader.bfmt.pos (encRecord r))
    (h : rd.curHeader.bfmt.pos + (21 + r.data.length) ≤ rd.curHeader.bfmt.finish) :
    ∃ record, recordRead m rd = ({ rd with curHeader := { rd.curHeader with
        bfmt := xmBfPosUpdate rd.curHeader.bfmt (21 + r.data.length) } }, some record) ∧
      record.toShmRecord = r := by
  generalize hbf : rd.curHeader.bfmt = bf at hm h
  simp only [encRecord, Mem.holds_append, length_toBE, Nat.add_assoc, Nat.reduceAdd] at hm
  obtain ⟨hmagic, hsize, htype, hoffset, hdata⟩ := hm
  have e₁ : xmBfUint32Read m bf = (EIMAGIC, xmBfPosUpdate bf 4) :=
    xmBfValueRead_eq 0 (by decide) hmagic (by omega)
  have e₂ : xmBfUint32Read m (xmBfPosUpdate bf 4) =
      ((r.data.length + 21) % 2 ^ 32, xmBfPosUpdate bf 8) :=
    xmBfValueRead_eq 4 (Nat.mod_lt _ (by decide)) hsize (by omega)
  have e₃ : xmBfUint8Read m (xmBfPosUpdate bf 8) = (r.type, xmBfPosUpdate bf 9) := by
    rw [xmBfUint8Read, xmBfValueRead_eq 8 r.type.toNat_lt htype (by omega)]
    simp only [UInt8.ofNat_toNat]
  have e₄ : xmBfUint32Read m (xmBfPosUpdate bf 9) = (0, xmBfPosUpdate bf 13) :=
    xmBfValueRead_eq 9 (by decide) hoffset (by omega)
  have e₅ : xmBfBytesRead m (xmBfPosUpdate bf 13) =
      (r.data, xmBfPosUpdate bf (13 + (8 + r.data.length))) :=
    xmBfBytesRead_eq 13 (by omega) (Mem.holds_append.mpr (by simpa [Nat.add_assoc] using hdata))
      (by omega)
  refine ⟨⟨r, EIMAGIC, (r.data.length + 21) % 2 ^ 32, 0⟩, ?_, rfl⟩
  simp only [recordRead, hbf, e₁, e₂, e₃, e₄, e₅, ne_eq, not_true_eq_false, if_false]
  rw [show 13 + (8 + r.data.length) = 21 + r.data.length by omega]

end

/-! ## Headers -/

/-- The bytes that a commit writes. -/
def headerBytes (header : XmShmEntryHeader) : List UInt8 :=
  toBE 4 header.magic ++ (toBE 4 header.majorVersion ++ (toBE 4 header.minorVersion ++
    (toBE 4 header.entriesNumber ++ toBE 4 header.entriesSize)))

theorem shmEntryHeaderCommit_eq {sh : Shared} {header : XmShmEntryHeader}
    (h : header.bfmt.start + 20 ≤ header.bfmt.finish) :
    (shmEntryHeaderCommit sh header).1 =
      { mem := sh.mem.write header.bfmt.start (headerBytes header)
        header := xmShmEntryPosUpdate sh.header true } := by
  have hw : xmBfUint32Write (xmBfUint32Write (xmBfUint32Write (xmBfUint32Write (xmBfUint32Write
      (sh.mem, xmBfReset header.bfmt) header.magic) header.majorVersion) header.minorVersion)
      header.entriesNumber) header.entriesSize =
      doWrite (sh.mem, xmBfReset header.bfmt) (headerBytes header) := by
    have hr : (xmBfReset header.bfmt).pos + 20 ≤ (xmBfReset header.bfmt).finish := h
    generalize xmBfReset header.bfmt = bf at hr ⊢
    simp only [xmBfUint32Write]
    rw [xmBfValueWrite_eq (w := (sh.mem, bf)) (by show bf.pos + 4 ≤ bf.finish; omega),
      xmBfValueWrite_doWrite (by simp; omega), xmBfValueWrite_doWrite (by simp; omega),
      xmBfValueWrite_doWrite (by simp; omega), xmBfValueWrite_doWrite (by simp; omega)]
    simp only [List.append_assoc]
    rfl
  simp only [shmEntryHeaderCommit, hw]
  rfl

theorem shmEntryHeaderRead_eq {m : Mem} (header : XmShmEntryHeader) {number size : Nat}
    (hn : number < 2 ^ 32) (hs : size < 2 ^ 32)
    (hm : m.Holds header.bfmt.pos (encHeader number size))
    (h : header.bfmt.pos + 20 ≤ header.bfmt.finish) :
    ∃ header', shmEntryHeaderRead m header = (header', true) ∧
      header'.bfmt = xmBfPosUpdate header.bfmt 20 ∧ header'.entriesNumber = number ∧
      header'.shmEntry = header.shmEntry := by
  generalize hbf : header.bfmt = bf at hm h
  simp only [encHeader, Mem.holds_append, length_toBE, Nat.add_assoc, Nat.reduceAdd] at hm
  obtain ⟨hmagic, hmajor, hminor, hnumber, hsize⟩ := hm
  have e₁ : xmBfUint32Read m bf = (FIMAGIC, xmBfPosUpdate bf 4) :=
    xmBfValueRead_eq 0 (by decide) hmagic (by omega)
  have e₂ : xmBfUint32Read m (xmBfPosUpdate bf 4) = (MAJOR_VERSION, xmBfPosUpdate bf 8) :=
    xmBfValueRead_eq 4 (by decide) hmajor (by omega)
  have e₃ : xmBfUint32Read m (xmBfPosUpdate bf 8) = (MINJOR_VERSION, xmBfPosUpdate bf 12) :=
    xmBfValueRead_eq 8 (by decide) hminor (by omega)
  have e₄ : xmBfUint32Read m (xmBfPosUpdate bf 12) = (number, xmBfPosUpdate bf 16) :=
    xmBfValueRead_eq 12 hn hnumber (by omega)
  have e₅ : xmBfUint32Read m (xmBfPosUpdate bf 16) = (size, xmBfPosUpdate bf 20) :=
    xmBfValueRead_eq 16 hs hsize (by omega)
  refine ⟨⟨header.shmEntry, xmBfPosUpdate bf 20, FIMAGIC, MAJOR_VERSION, MINJOR_VERSION, number,
    size⟩, ?_, rfl, rfl, rfl⟩
  simp only [shmEntryHeaderRead, hbf, e₁, e₂, e₃, e₄, e₅, ne_eq, not_true_eq_false, if_false]

end Xmap.Shm
