import Xmap.Shm.Interface

/-!
# Records in ring entries (`xm_shm_format`, `xm_shm_entry_record`)

The writer collects records in an entry behind a header, which it fills in when it commits the entry.
The reader takes an entry and iterates over its records.
-/

namespace Xmap.Shm

open Xmap.Lib

def FIMAGIC : Nat := 0xFFFA
def EIMAGIC : Nat := 0xFFFB
def MAJOR_VERSION : Nat := 1
def MINJOR_VERSION : Nat := 0

def xmShmEntryHeaderLen : Nat := 20

/-- `XM_SHM_ENTRY_RECORD_HEADER_SIZE`: the type, three words and the data length. -/
def xmShmEntryRecordHeaderSize : Nat := 1 + 4 * 3 + 8

/-- A type and data, as they are put and delivered. -/
structure ShmRecord where
  type : UInt8
  data : List UInt8
deriving DecidableEq, Repr

/-- `xm_shm_entry_record_t`. -/
structure XmShmEntryRecord extends ShmRecord where
  magic : Nat
  recordSize : Nat
  dataOffset : Nat
deriving DecidableEq, Repr

structure XmShmEntryHeader where
  shmEntry : XmShmEntry
  bfmt : XmBinFormat
  magic : Nat
  majorVersion : Nat
  minorVersion : Nat
  entriesNumber : Nat
  entriesSize : Nat
deriving DecidableEq, Repr

structure XmShmFormat where
  curHeader : XmShmEntryHeader
  hasHeader : Bool
  entrySize : Nat
deriving DecidableEq, Repr

/-- The memory that both processes map, and the header in it. -/
structure Shared where
  mem : Mem
  header : XmShmHeader

def xmShmFormatCreate (entrySize : Nat) : XmShmFormat :=
  { curHeader := ⟨⟨0, 0, 0⟩, ⟨0, 0, 0⟩, 0, 0, 0, 0, 0⟩
    hasHeader := false
    entrySize := entrySize % 2 ^ 32 }

/-! ## Writing -/

def isRecordSizeOver (fmt : XmShmFormat) (record : XmShmEntryRecord) : Prop :=
  (fmt.entrySize + 2 ^ 64 - xmShmEntryHeaderLen) % 2 ^ 32 < record.recordSize

instance (fmt : XmShmFormat) (record : XmShmEntryRecord) : Decidable (isRecordSizeOver fmt record) :=
  inferInstanceAs (Decidable (_ < _))

def isNeedCreateEntryHeader (fmt : XmShmFormat) (record : XmShmEntryRecord) : Prop :=
  fmt.hasHeader = false ∨ xmBfFull fmt.curHeader.bfmt record.recordSize

instance (fmt : XmShmFormat) (record : XmShmEntryRecord) :
    Decidable (isNeedCreateEntryHeader fmt record) :=
  inferInstanceAs (Decidable (_ ∨ _))

def shmEntryHeaderCommit (sh : Shared) (header : XmShmEntryHeader) : Shared × XmShmEntryHeader :=
  let w := (sh.mem, xmBfReset header.bfmt)
  let w := xmBfUint32Write w header.magic
  let w := xmBfUint32Write w header.majorVersion
  let w := xmBfUint32Write w header.minorVersion
  let w := xmBfUint32Write w header.entriesNumber
  let w := xmBfUint32Write w header.entriesSize
  let c := xmShmEntryCommit sh.header true
  ({ mem := w.1, header := c.1 }, { header with bfmt := w.2, shmEntry := c.2 })

def shmEntryHeaderInit (header : XmShmEntryHeader) : XmShmEntryHeader :=
  { header with
    bfmt := xmBfSkip (xmBfInit header.shmEntry.start header.shmEntry.finish) xmShmEntryHeaderLen
    magic := FIMAGIC
    majorVersion := MAJOR_VERSION
    minorVersion := MINJOR_VERSION
    entriesSize := 0
    entriesNumber := 0 }

/-- The commit of `_shm_entry_header_create`. -/
def commitCurHeader (sh : Shared) (fmt : XmShmFormat) : Shared × XmShmFormat :=
  if fmt.hasHeader then
    let c := shmEntryHeaderCommit sh fmt.curHeader
    (c.1, { fmt with curHeader := c.2, hasHeader := false })
  else (sh, fmt)

/-- `_shm_entry_header_create`, with whether it succeeds. -/
def shmEntryHeaderCreate (sh : Shared) (fmt : XmShmFormat) : Shared × XmShmFormat × Bool :=
  let c := commitCurHeader sh fmt
  match xmShmEntryGet c.1.header true with
  | none => (c.1, c.2, false)
  | some entry =>
    (c.1, { c.2 with
      curHeader := shmEntryHeaderInit { c.2.curHeader with shmEntry := entry }, hasHeader := true },
      true)

def xmShmRecordLen (record : XmShmEntryRecord) : Nat :=
  (record.data.length + xmShmEntryRecordHeaderSize) % 2 ^ 32

/-- The writes of `_shm_record_write`. -/
def recordWrites (w : Mem × XmBinFormat) (record : XmShmEntryRecord) : Mem × XmBinFormat :=
  let w := xmBfUint32Write w EIMAGIC
  let w := xmBfUint32Write w (xmShmRecordLen record)
  let w := xmBfUint8Write w record.type
  let w := xmBfUint32Write w record.dataOffset
  xmBfBytesWrite w record.data

def shmRecordWrite (sh : Shared) (fmt : XmShmFormat) (record : XmShmEntryRecord) :
    Shared × XmShmFormat :=
  let header := fmt.curHeader
  let bsize := xmBfContentSize header.bfmt % 2 ^ 32
  let w := recordWrites (sh.mem, header.bfmt) record
  let asize := xmBfContentSize w.2 % 2 ^ 32
  ({ sh with mem := w.1 },
   { fmt with curHeader := { header with
      bfmt := w.2
      entriesNumber := (header.entriesNumber + 1) % 2 ^ 32
      entriesSize := (header.entriesSize + (asize + 2 ^ 32 - bsize)) % 2 ^ 32 } })

/-- `xm_shm_format_put`: 0, or -2 for a record that is too large, or -1 without an entry. -/
def xmShmFormatPut (sh : Shared) (fmt : XmShmFormat) (record : XmShmEntryRecord) :
    Shared × XmShmFormat × Int :=
  if isRecordSizeOver fmt record then (sh, fmt, -2)
  else if isNeedCreateEntryHeader fmt record then
    let c := shmEntryHeaderCreate sh fmt
    if c.2.2 then
      let w := shmRecordWrite c.1 c.2.1 record
      (w.1, w.2, 0)
    else (c.1, c.2.1, -1)
  else
    let w := shmRecordWrite sh fmt record
    (w.1, w.2, 0)

def canBeenFlush (fmt : XmShmFormat) : Prop :=
  fmt.hasHeader = true ∧ ¬ xmBfEmpty fmt.curHeader.bfmt

instance (fmt : XmShmFormat) : Decidable (canBeenFlush fmt) := inferInstanceAs (Decidable (_ ∧ _))

def xmShmFormatFlush (sh : Shared) (fmt : XmShmFormat) : Shared × XmShmFormat :=
  if canBeenFlush fmt then
    let c := shmEntryHeaderCreate sh fmt
    if c.2.2 then (c.1, c.2.1) else (c.1, { c.2.1 with hasHeader := false })
  else (sh, fmt)

/-- The record that `xm_shm_entry_record_put` makes. -/
def entryRecordOf (r : ShmRecord) : XmShmEntryRecord :=
  { r with
    magic := EIMAGIC
    recordSize := (xmShmEntryRecordHeaderSize + r.data.length) % 2 ^ 32
    dataOffset := 0 }

/-- One round of the loop of `xm_shm_entry_record_put`; it goes on after -1. -/
def xmShmEntryRecordPutOnce (sh : Shared) (fmt : XmShmFormat) (r : ShmRecord) :
    Shared × XmShmFormat × Int :=
  xmShmFormatPut sh fmt (entryRecordOf r)

/-! ## Reading -/

/-- `xm_shm_entry_iterator_t`; `hasHeader` is a header pointer other than `NULL`. -/
structure XmShmEntryIterator where
  hasHeader : Bool
  entriesCount : Nat
deriving DecidableEq, Repr

/-- The format of the reading process: its current header and its iterator. -/
structure XmShmReader where
  curHeader : XmShmEntryHeader
  shmIter : XmShmEntryIterator
deriving DecidableEq, Repr

/-- `_shm_entry_header_read`, with whether the magic is right. -/
def shmEntryHeaderRead (m : Mem) (header : XmShmEntryHeader) : XmShmEntryHeader × Bool :=
  let magic := xmBfUint32Read m header.bfmt
  if magic.1 ≠ FIMAGIC then ({ header with magic := magic.1, bfmt := magic.2 }, false)
  else
    let major := xmBfUint32Read m magic.2
    let minor := xmBfUint32Read m major.2
    let number := xmBfUint32Read m minor.2
    let size := xmBfUint32Read m number.2
    ({ header with
      magic := magic.1, majorVersion := major.1, minorVersion := minor.1,
      entriesNumber := number.1, entriesSize := size.1, bfmt := size.2 }, true)

def xmShmEntryIteratorPrefare (sh : Shared) (rd : XmShmReader) : XmShmReader × Bool :=
  let iter : XmShmEntryIterator := { hasHeader := false, entriesCount := 0 }
  match xmShmEntryGet sh.header false with
  | none => ({ rd with shmIter := iter }, false)
  | some entry =>
    let h := shmEntryHeaderRead sh.mem
      { rd.curHeader with shmEntry := entry, bfmt := xmBfInit entry.start entry.finish }
    if h.2 then ({ curHeader := h.1, shmIter := { iter with hasHeader := true } }, true)
    else ({ curHeader := h.1, shmIter := iter }, false)

def hasNext (rd : XmShmReader) : Prop :=
  rd.shmIter.hasHeader = true ∧ rd.shmIter.entriesCount < rd.curHeader.entriesNumber

instance (rd : XmShmReader) : Decidable (hasNext rd) := inferInstanceAs (Decidable (_ ∧ _))

/-- `_record_read`; a wrong magic ends the iteration. -/
def recordRead (m : Mem) (rd : XmShmReader) : XmShmReader × Option XmShmEntryRecord :=
  let magic := xmBfUint32Read m rd.curHeader.bfmt
  if magic.1 ≠ EIMAGIC then
    ({ curHeader := { rd.curHeader with bfmt := magic.2 },
       shmIter := { rd.shmIter with hasHeader := false } }, none)
  else
    let size := xmBfUint32Read m magic.2
    let type := xmBfUint8Read m size.2
    let offset := xmBfUint32Read m type.2
    let data := xmBfBytesRead m offset.2
    ({ rd with curHeader := { rd.curHeader with bfmt := data.2 } },
     some { type := type.1, data := data.1, magic := magic.1, recordSize := size.1,
            dataOffset := offset.1 })

def recordNext (m : Mem) (rd : XmShmReader) : XmShmReader × Option XmShmEntryRecord :=
  if hasNext rd then
    let r := recordRead m rd
    if r.2.isSome then
      ({ r.1 with shmIter :=
          { r.1.shmIter with entriesCount := (r.1.shmIter.entriesCount + 1) % 2 ^ 32 } }, r.2)
    else (r.1, none)
  else (rd, none)

def xmShmEntryIteratorCommit (sh : Shared) (rd : XmShmReader) : Shared × XmShmReader :=
  if rd.shmIter.hasHeader then
    let c := xmShmEntryCommit sh.header false
    ({ sh with header := c.1 },
     { curHeader := { rd.curHeader with shmEntry := c.2 },
       shmIter := { hasHeader := false, entriesCount := 0 } })
  else (sh, rd)

end Xmap.Shm
