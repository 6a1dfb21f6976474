import Xmap.Shm.Format

/-!
# Reading through pointers (`xm_bin_format`, `xm_shm_format`)

The reads of the iterator on an entry of any content. Pointers are words of 64 bits and wrap, and a record
refers to its data by a pointer. The functions are those of `Xmap.Shm`, which suppose that nothing wraps.
-/

namespace Xmap.Shm.Ptr

open Xmap.Lib

/-- A pointer moved on. -/
def add (p n : Nat) : Nat := (p + n) % 2 ^ 64

/-- The bytes at some pointers. -/
def load (m : Mem) (p n : Nat) : List UInt8 := (List.range n).map fun i => m (add p i)

/-! ## Buffers -/

abbrev xmBfFull (bf : XmBinFormat) (size : Nat) : Prop := bf.finish < add bf.pos size

def xmBfPosUpdate (bf : XmBinFormat) (size : Nat) : XmBinFormat := { bf with pos := add bf.pos size }

def xmBfValueRead (sz : Nat) (m : Mem) (bf : XmBinFormat) : Nat × XmBinFormat :=
  if xmBfFull bf sz then (0, bf) else (ofBE (load m bf.pos sz), xmBfPosUpdate bf sz)

def xmBfUint8Read (m : Mem) (bf : XmBinFormat) : UInt8 × XmBinFormat :=
  let r := xmBfValueRead 1 m bf
  (UInt8.ofNat r.1, r.2)

def xmBfUint32Read : Mem → XmBinFormat → Nat × XmBinFormat := xmBfValueRead 4

def xmBfSizeRead : Mem → XmBinFormat → Nat × XmBinFormat := xmBfValueRead 8

/-- The pointer to the bytes and their number; `NULL` and 0 where there is no room for the number. -/
def xmBfBytesRead (m : Mem) (bf : XmBinFormat) : Nat × Nat × XmBinFormat :=
  if xmBfFull bf 8 then (0, 0, bf)
  else
    let r := xmBfSizeRead m bf
    (r.2.pos, r.1, xmBfPosUpdate r.2 r.1)

/-! ## Records -/

/-- `xm_shm_entry_record_t`. -/
structure XmShmEntryRecord where
  type : UInt8
  magic : Nat
  recordSize : Nat
  dataOffset : Nat
  data : Nat
  dataLen : Nat
deriving DecidableEq, Repr

def shmEntryHeaderRead (m : Mem) (header : XmShmEntryHeader) : XmShmEntryHeader × Bool :=
  let magic := xmBfUint32Read m header.bfmt
  if magic.1 ≠ FIMAGIC then ({ header with magic := magic.1, bfmt := magic.2 }, false)
  else
    let major := xmBfUint32Read m magic.2
    let minor := xmBfUint32Read m major.2
    let number := xmBfUint32Read m minor.2
    let size := xmBfUint32Read m number.2
    ({ header with
      magic := magic.1, majorVersion := major.1, minorVersion := minor.1,
      entriesNumber := number.1, entriesSize := size.1, bfmt := size.2 }, true)

/-- `xm_shm_entry_iterator_prefare` once it has got its entry. -/
def iteratorOn (m : Mem) (rd : XmShmReader) (entry : XmShmEntry) : XmShmReader × Bool :=
  let h := shmEntryHeaderRead m
    { rd.curHeader with shmEntry := entry, bfmt := xmBfInit entry.start entry.finish }
  ({ curHeader := h.1, shmIter := { hasHeader := h.2, entriesCount := 0 } }, h.2)

/-- The buffer behind the fields of a record that stand before the length of its data. -/
def afterFields (m : Mem) (bf : XmBinFormat) : XmBinFormat :=
  let magic := xmBfUint32Read m bf
  let size := xmBfUint32Read m magic.2
  let type := xmBfUint8Read m size.2
  (xmBfUint32Read m type.2).2

/-- The buffer behind a record. -/
def afterRecord (m : Mem) (bf : XmBinFormat) : XmBinFormat := (xmBfBytesRead m (afterFields m bf)).2.2

def recordRead (m : Mem) (rd : XmShmReader) : XmShmReader × Option XmShmEntryRecord :=
  let magic := xmBfUint32Read m rd.curHeader.bfmt
  if magic.1 ≠ EIMAGIC then
    ({ curHeader := { rd.curHeader with bfmt := magic.2 },
       shmIter := { rd.shmIter with hasHeader := false } }, none)
  else
    let size := xmBfUint32Read m magic.2
    let type := xmBfUint8Read m size.2
    let offset := xmBfUint32Read m type.2
    let data := xmBfBytesRead m offset.2
    ({ rd with curHeader := { rd.curHeader with bfmt := data.2.2 } },
     some { type := type.1, magic := magic.1, recordSize := size.1, dataOffset := offset.1,
            data := data.1, dataLen := data.2.1 })

def recordNext (m : Mem) (rd : XmShmReader) : XmShmReader × Option XmShmEntryRecord :=
  if hasNext rd then
    let r := recordRead m rd
    if r.2.isSome then
      ({ r.1 with shmIter :=
          { r.1.shmIter with entriesCount := (r.1.shmIter.entriesCount + 1) % 2 ^ 32 } }, r.2)
    else (r.1, none)
  else (rd, none)

/-- The reader after some calls of `record_next`. -/
def readerAfter (m : Mem) : Nat → XmShmReader → XmShmReader
  | 0, rd => rd
  | n + 1, rd => readerAfter m n (recordNext m rd).1

/-! ## What a call of `record_next` does -/

section
variable {m : Mem} {rd : XmShmReader}

theorem recordRead_of_magic (h : (xmBfUint32Read m rd.curHeader.bfmt).1 = EIMAGIC) :
    ∃ record, recordRead m rd =
      ({ rd with curHeader := { rd.curHeader with bfmt := afterRecord m rd.curHeader.bfmt } }, some record) ∧
      record.data = (xmBfBytesRead m (afterFields m rd.curHeader.bfmt)).1 ∧
      record.dataLen = (xmBfBytesRead m (afterFields m rd.curHeader.bfmt)).2.1 := by
  simp only [recordRead, h, ne_eq, not_true_eq_false, ite_false, afterRecord, afterFields, Prod.mk.injEq,
    true_and, Option.some.injEq, exists_eq_left', and_self]

theorem recordRead_of_not_magic (h : (xmBfUint32Read m rd.curHeader.bfmt).1 ≠ EIMAGIC) :
    (recordRead m rd).2 = none ∧ (recordRead m rd).1.shmIter.hasHeader = false ∧
      (recordRead m rd).1.curHeader = { rd.curHeader with bfmt := (xmBfUint32Read m rd.curHeader.bfmt).2 } := by
  simp only [recordRead, if_pos h, and_self]

theorem recordNext_of_not_hasNext (h : ¬ hasNext rd) : recordNext m rd = (rd, none) := by
  rw [recordNext, if_neg h]

theorem recordNext_of_not_magic (hn : hasNext rd) (h : (xmBfUint32Read m rd.curHeader.bfmt).1 ≠ EIMAGIC) :
    (recordNext m rd).2 = none ∧ (recordNext m rd).1.shmIter.hasHeader = false ∧
      (recordNext m rd).1.curHeader = { rd.curHeader with bfmt := (xmBfUint32Read m rd.curHeader.bfmt).2 } := by
  obtain ⟨hnone, hiter, hbf⟩ := recordRead_of_not_magic h
  simp only [recordNext, if_pos hn, hnone, Option.isSome_none, Bool.false_eq_true, ite_false]
  exact ⟨trivial, hiter, hbf⟩

theorem recordNext_of_magic (hn : hasNext rd) (h : (xmBfUint32Read m rd.curHeader.bfmt).1 = EIMAGIC) :
    ∃ record, recordNext m rd =
      ({ curHeader := { rd.curHeader with bfmt := afterRecord m rd.curHeader.bfmt }
         shmIter := { rd.shmIter with entriesCount := (rd.shmIter.entriesCount + 1) % 2 ^ 32 } },
        some record) ∧
      record.data = (xmBfBytesRead m (afterFields m rd.curHeader.bfmt)).1 ∧
      record.dataLen = (xmBfBytesRead m (afterFields m rd.curHeader.bfmt)).2.1 := by
  obtain ⟨record, hread, hdata, hlen⟩ := recordRead_of_magic h
  refine ⟨record, ?_, hdata, hlen⟩
  simp only [recordNext, if_pos hn, hread, Option.isSome_some, if_true]

end

end Xmap.Shm.Ptr
