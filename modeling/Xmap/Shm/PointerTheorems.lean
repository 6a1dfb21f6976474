import Xmap.Shm.Pointers

/-!
# Theorems on the records of an entry of any content

The fields of fixed size are checked against the end of the entry, the length of the data is not. The
records stay inside the entry exactly when the lengths that stand in it do.
-/

namespace Xmap.Shm.Ptr

open Xmap.Lib

/-- Where an entry is mapped. The last page of the address space never is. -/
structure MappedEntry where
  start : Nat
  finish : Nat
  start_le : start ≤ finish
  finish_le : finish + 4096 ≤ 2 ^ 64

def MappedEntry.toEntry (e : MappedEntry) (indx : Nat) : XmShmEntry := ⟨indx, e.start, e.finish⟩

/-- Every byte of the data lies in the entry. -/
def XmShmEntryRecord.DataInside (record : XmShmEntryRecord) (e : MappedEntry) : Prop :=
  ∀ i < record.dataLen, e.start ≤ add record.data i ∧ add record.data i < e.finish

/-- After any number of steps the position has not passed the end, and the next record lies inside. -/
def StaysInside (m : Mem) (e : MappedEntry) (rd : XmShmReader) : Prop :=
  ∀ n, (readerAfter m n rd).curHeader.bfmt.pos ≤ e.finish ∧
    ∀ record, (recordNext m (readerAfter m n rd)).2 = some record → record.DataInside e

/-- The length in the record at an address. -/
def dataLenAt (m : Mem) (p : Nat) : Nat := ofBE (m.read (p + 13) 8)

/-- The lengths in the given number of records, one behind the other, fit in the rest of the entry. The walk
ends at a record without its magic and at one whose fields are cut off by the end. -/
def LengthsFit (m : Mem) (finish : Nat) : Nat → Nat → Prop
  | 0, _ => True
  | n + 1, p =>
    p + xmShmEntryRecordHeaderSize ≤ finish → ofBE (m.read p 4) = EIMAGIC →
      p + xmShmEntryRecordHeaderSize + dataLenAt m p ≤ finish ∧
        LengthsFit m finish n (p + xmShmEntryRecordHeaderSize + dataLenAt m p)

instance decidableLengthsFit (m : Mem) (finish : Nat) : ∀ n p, Decidable (LengthsFit m finish n p)
  | 0, _ => isTrue trivial
  | n + 1, p =>
    have := decidableLengthsFit m finish n (p + xmShmEntryRecordHeaderSize + dataLenAt m p)
    inferInstanceAs (Decidable (_ → _ → _ ∧ _))

/-- The lengths in an entry whose header fits in it and has its magic. -/
def EntryLengthsFit (m : Mem) (e : MappedEntry) : Prop :=
  e.start + xmShmEntryHeaderLen ≤ e.finish → ofBE (m.read e.start 4) = FIMAGIC →
    LengthsFit m e.finish (ofBE (m.read (e.start + 12) 4)) (e.start + xmShmEntryHeaderLen)

instance (m : Mem) (e : MappedEntry) : Decidable (EntryLengthsFit m e) :=
  inferInstanceAs (Decidable (_ → _ → _))

/-! ## Reads of fixed size -/

section
variable {m : Mem} {start finish p sz : Nat}

theorem add_eq {n : Nat} (h : p + n < 2 ^ 64) : add p n = p + n := Nat.mod_eq_of_lt h

theorem load_eq {n : Nat} (h : p + n ≤ 2 ^ 64) : load m p n = m.read p n := by
  refine List.map_congr_left fun i hi => ?_
  rw [add_eq (by have := List.mem_range.mp hi; omega)]

theorem xmBfFull_iff (hend : finish + 4096 ≤ 2 ^ 64) (hp : p ≤ finish) (hsz : sz ≤ 8) :
    xmBfFull ⟨start, p, finish⟩ sz ↔ Shm.xmBfFull ⟨start, p, finish⟩ sz := by
  have hadd : add p sz = p + sz := add_eq (by omega)
  exact iff_of_eq (congrArg (finish < ·) hadd)

/-- Up to the end, a read through a pointer is the read of the buffer. -/
theorem xmBfValueRead_eq (hend : finish + 4096 ≤ 2 ^ 64) (hp : p ≤ finish) (hsz : sz ≤ 8) :
    xmBfValueRead sz m ⟨start, p, finish⟩ = Shm.xmBfValueRead sz m ⟨start, p, finish⟩ := by
  have hadd : add p sz = p + sz := add_eq (by omega)
  have hload : load m p sz = m.read p sz := load_eq (by omega)
  simp only [xmBfValueRead, Shm.xmBfValueRead, xmBfFull_iff hend hp hsz, xmBfPosUpdate, Shm.xmBfPosUpdate,
    hadd, hload]

theorem xmBfValueRead_of_fits (hend : finish + 4096 ≤ 2 ^ 64) (hsz : sz ≤ 8) (h : p + sz ≤ finish) :
    xmBfValueRead sz m ⟨start, p, finish⟩ = (ofBE (m.read p sz), ⟨start, p + sz, finish⟩) := by
  rw [xmBfValueRead_eq hend (by omega) hsz]
  exact if_neg (Nat.not_lt.mpr h)

theorem xmBfValueRead_of_full (hend : finish + 4096 ≤ 2 ^ 64) (hp : p ≤ finish) (hsz : sz ≤ 8)
    (h : finish < p + sz) : xmBfValueRead sz m ⟨start, p, finish⟩ = (0, ⟨start, p, finish⟩) := by
  rw [xmBfValueRead_eq hend hp hsz]
  exact if_pos h

/-- Where a read leaves the position. -/
theorem xmBfValueRead_pos (m : Mem) (start sz : Nat) (hend : finish + 4096 ≤ 2 ^ 64) (hp : p ≤ finish)
    (hsz : sz ≤ 8) :
    ∃ q, (xmBfValueRead sz m ⟨start, p, finish⟩).2 = ⟨start, q, finish⟩ ∧
      (q = p + sz ∧ p + sz ≤ finish ∨ q = p ∧ finish < p + sz) := by
  by_cases h : p + sz ≤ finish
  · exact ⟨p + sz, by rw [xmBfValueRead_of_fits hend hsz h], Or.inl ⟨rfl, h⟩⟩
  · have hfull : finish < p + sz := by omega
    exact ⟨p, by rw [xmBfValueRead_of_full hend hp hsz hfull], Or.inr ⟨rfl, hfull⟩⟩

/-- Zero is no magic, so one that is read stands in the entry. -/
theorem xmBfUint32Read_eq_iff (m : Mem) (start : Nat) (hend : finish + 4096 ≤ 2 ^ 64) (hp : p ≤ finish)
    {magic : Nat} (h : 0 < magic) :
    (xmBfUint32Read m ⟨start, p, finish⟩).1 = magic ↔ p + 4 ≤ finish ∧ ofBE (m.read p 4) = magic := by
  by_cases hfits : p + 4 ≤ finish
  · rw [xmBfUint32Read, xmBfValueRead_of_fits hend (by decide) hfits]
    simp only [hfits, true_and]
  · rw [xmBfUint32Read, xmBfValueRead_of_full hend hp (by decide) (by omega)]
    exact ⟨fun h0 => absurd h0 h.ne, fun h1 => absurd h1.1 hfits⟩

/-! ## The data of a record -/

/-- The length is reached exactly where all fields fit. -/
theorem afterFields_pos (m : Mem) (start : Nat) (hend : finish + 4096 ≤ 2 ^ 64) (hp : p ≤ finish) :
    ∃ q, afterFields m ⟨start, p, finish⟩ = ⟨start, q, finish⟩ ∧ p ≤ q ∧ q ≤ finish ∧
      (p + 4 ≤ finish → p + 4 ≤ q) ∧ (p + 21 ≤ finish → q = p + 13) ∧ (finish < p + 21 → finish < q + 8) := by
  obtain ⟨q₁, h₁, hq₁⟩ := xmBfValueRead_pos m start 4 hend hp (by decide)
  obtain ⟨q₂, h₂, hq₂⟩ :=
    xmBfValueRead_pos m start 4 (p := q₁) hend (by omega) (by decide)
  obtain ⟨q₃, h₃, hq₃⟩ :=
    xmBfValueRead_pos m start 1 (p := q₂) hend (by omega) (by decide)
  obtain ⟨q₄, h₄, hq₄⟩ :=
    xmBfValueRead_pos m start 4 (p := q₃) hend (by omega) (by decide)
  refine ⟨q₄, ?_, by omega, by omega, by omega, by omega, by omega⟩
  simp only [afterFields, xmBfUint32Read, xmBfUint8Read, h₁, h₂, h₃, h₄]

theorem xmBfBytesRead_of_room (hend : finish + 4096 ≤ 2 ^ 64) (h : p + 21 ≤ finish) :
    xmBfBytesRead m (afterFields m ⟨start, p, finish⟩) =
      (p + 21, dataLenAt m p, ⟨start, add (p + 21) (dataLenAt m p), finish⟩) := by
  obtain ⟨q, hq, -, -, -, hroom, -⟩ := afterFields_pos m start (p := p) hend (by omega)
  have hfull : ¬ xmBfFull ⟨start, p + 13, finish⟩ 8 :=
    mt (xmBfFull_iff hend (by omega) (by decide)).mp (Nat.not_lt.mpr (show p + 13 + 8 ≤ finish by omega))
  rw [hq, hroom h, xmBfBytesRead, if_neg hfull, xmBfSizeRead,
    xmBfValueRead_of_fits hend (by decide) (by omega)]
  rfl

theorem xmBfBytesRead_of_short (m : Mem) (start : Nat) (hend : finish + 4096 ≤ 2 ^ 64) (hp : p ≤ finish)
    (h : finish < p + 21) :
    ∃ q, p ≤ q ∧ q ≤ finish ∧ (p + 4 ≤ finish → p + 4 ≤ q) ∧
      xmBfBytesRead m (afterFields m ⟨start, p, finish⟩) = (0, 0, ⟨start, q, finish⟩) := by
  obtain ⟨q, hq, hpq, hle, hmagic, -, hshort⟩ := afterFields_pos m start hend hp
  have hfull : xmBfFull ⟨start, q, finish⟩ 8 := (xmBfFull_iff hend hle (by decide)).mpr (hshort h)
  exact ⟨q, hpq, hle, hmagic, by rw [hq, xmBfBytesRead, if_pos hfull]⟩

theorem LengthsFit.of_short {n : Nat} (h : finish < p + 21) : LengthsFit m finish n p := by
  cases n with
  | zero => exact trivial
  | succ n => exact fun hfits => absurd hfits (by rw [xmShmEntryRecordHeaderSize]; omega)

end

/-! ## The steps of the iterator -/

section
variable {m : Mem} {e : MappedEntry} {rd : XmShmReader} {p n : Nat}

/-- The iterator stands at an address, with a number of records to come. -/
structure At (e : MappedEntry) (p n : Nat) (rd : XmShmReader) : Prop where
  bfmt : rd.curHeader.bfmt = ⟨e.start, p, e.finish⟩
  start_le : e.start ≤ p
  le_finish : p ≤ e.finish
  left : rd.shmIter.hasHeader = true → rd.curHeader.entriesNumber < 2 ^ 32 ∧
    rd.shmIter.entriesCount + n = rd.curHeader.entriesNumber

theorem At.hasNext_iff (h : At e p n rd) : hasNext rd ↔ rd.shmIter.hasHeader = true ∧ 0 < n := by
  refine and_congr_right fun hh => ?_
  have := (h.left hh).2
  omega

theorem At.magic_iff (h : At e p n rd) : (xmBfUint32Read m rd.curHeader.bfmt).1 = EIMAGIC ↔
    p + 4 ≤ e.finish ∧ ofBE (m.read p 4) = EIMAGIC := by
  rw [h.bfmt]
  exact xmBfUint32Read_eq_iff m e.start e.finish_le h.le_finish (by decide)

/-- The count of the records, where one is left. -/
theorem At.count_succ (h : At e p (n + 1) rd) (hh : rd.shmIter.hasHeader = true) :
    rd.curHeader.entriesNumber < 2 ^ 32 ∧
      (rd.shmIter.entriesCount + 1) % 2 ^ 32 + n = rd.curHeader.entriesNumber := by
  obtain ⟨hlt, hleft⟩ := h.left hh
  rw [Nat.mod_eq_of_lt (by omega)]
  exact ⟨hlt, by omega⟩

/-- A record with room for its fields: the position moves behind its data, wherever that is. -/
theorem At.next_of_room (h : At e p (n + 1) rd) (hh : rd.shmIter.hasHeader = true) (hroom : p + 21 ≤ e.finish)
    (hmagic : ofBE (m.read p 4) = EIMAGIC) :
    (recordNext m rd).1.curHeader.bfmt = ⟨e.start, add (p + 21) (dataLenAt m p), e.finish⟩ ∧
      (p + 21 + dataLenAt m p ≤ e.finish → At e (p + 21 + dataLenAt m p) n (recordNext m rd).1) ∧
      (recordNext m rd).1.shmIter.hasHeader = true ∧
      ∃ record, (recordNext m rd).2 = some record ∧ record.data = p + 21 ∧ record.dataLen = dataLenAt m p := by
  have hend := e.finish_le
  obtain ⟨record, hnext, hdata, hlen⟩ := recordNext_of_magic (h.hasNext_iff.mpr ⟨hh, by omega⟩)
    (h.magic_iff.mpr ⟨by omega, hmagic⟩)
  have hbfmt : (recordNext m rd).1.curHeader.bfmt =
      ⟨e.start, add (p + 21) (dataLenAt m p), e.finish⟩ := by
    rw [hnext]
    simp only [h.bfmt, afterRecord, xmBfBytesRead_of_room hend hroom]
  rw [h.bfmt, xmBfBytesRead_of_room hend hroom] at hdata hlen
  refine ⟨hbfmt, fun hfits => ⟨?_, by have := h.start_le; omega, hfits, fun _ => ?_⟩, ?_, record, ?_, hdata, hlen⟩
  · rw [hbfmt, add_eq (by omega)]
  · rw [hnext]
    exact h.count_succ hh
  · rw [hnext]
    exact hh
  · rw [hnext]

/-- Any other step has no data, and after it no record has room. -/
theorem At.next_of_not_room (h : At e p (n + 1) rd)
    (hnot : rd.shmIter.hasHeader = true → p + 21 ≤ e.finish → ofBE (m.read p 4) ≠ EIMAGIC) :
    (∃ q, At e q n (recordNext m rd).1 ∧
        ((recordNext m rd).1.shmIter.hasHeader = true → e.finish < q + 21)) ∧
      ∀ record, (recordNext m rd).2 = some record → record.dataLen = 0 := by
  have hp := h.le_finish
  have hstart := h.start_le
  cases hh : rd.shmIter.hasHeader with
  | false =>
    have hn : ¬ hasNext rd := fun hn => by
      rw [h.hasNext_iff, hh] at hn
      exact Bool.false_ne_true hn.1
    rw [recordNext_of_not_hasNext hn, hh]
    refine ⟨⟨p, ⟨h.bfmt, hstart, hp, fun hh' => ?_⟩, fun hh' => absurd hh' Bool.false_ne_true⟩, ?_⟩
    · exact absurd (hh.symm.trans hh') Bool.false_ne_true
    · rintro _ ⟨⟩
  | true =>
    have hn : hasNext rd := h.hasNext_iff.mpr ⟨hh, by omega⟩
    by_cases hread : (xmBfUint32Read m rd.curHeader.bfmt).1 = EIMAGIC
    · have hmagic := (h.magic_iff.mp hread).2
      have hshort : e.finish < p + 21 := by
        by_contra hroom
        exact hnot hh (by omega) hmagic
      obtain ⟨record, hnext, -, hlen⟩ := recordNext_of_magic hn hread
      obtain ⟨q, hpq, hq, -, hbytes⟩ := xmBfBytesRead_of_short m e.start e.finish_le hp hshort
      rw [h.bfmt, hbytes] at hlen
      rw [hnext]
      refine ⟨⟨q, ⟨?_, by omega, hq, fun _ => h.count_succ hh⟩, fun _ => by omega⟩, ?_⟩
      · simp only [h.bfmt, afterRecord, hbytes]
      · rintro _ ⟨⟩
        exact hlen
    · obtain ⟨hnone, hiter, hheader⟩ := recordNext_of_not_magic hn hread
      have hstop : (recordNext m rd).1.shmIter.hasHeader ≠ true := fun hh' =>
        Bool.false_ne_true (hiter.symm.trans hh')
      obtain ⟨q, hq, hpos⟩ := xmBfValueRead_pos m e.start 4 e.finish_le hp (by decide)
      refine ⟨⟨q, ⟨?_, by omega, by omega, fun hh' => absurd hh' hstop⟩, fun hh' => absurd hh' hstop⟩, ?_⟩
      · rw [hheader, h.bfmt, xmBfUint32Read, hq]
      · rw [hnone]
        rintro _ ⟨⟩

/-! ## Whole runs -/

theorem StaysInside.next (h : StaysInside m e rd) : StaysInside m e (recordNext m rd).1 := fun n => h (n + 1)

/-- The data behind the fields of a record lies inside exactly when its length fits. -/
theorem dataInside_iff {record : XmShmEntryRecord} {len : Nat} (hp : e.start ≤ p) (hroom : p + 21 ≤ e.finish)
    (hdata : record.data = p + 21) (hlen : record.dataLen = len) :
    record.DataInside e ↔ p + 21 + len ≤ e.finish := by
  have hend := e.finish_le
  rw [XmShmEntryRecord.DataInside, hdata, hlen]
  constructor
  · intro h
    by_contra hover
    have hlast := (h (e.finish - (p + 21)) (by omega)).2
    rw [add_eq (by omega)] at hlast
    omega
  · intro hfits i hi
    rw [add_eq (by omega)]
    omega

theorem dataInside_of_dataLen {record : XmShmEntryRecord} (h : record.dataLen = 0) : record.DataInside e := by
  intro i hi
  rw [h] at hi
  exact absurd hi (Nat.not_lt_zero i)

theorem At.not_zero (h : At e p 0 rd) : recordNext m rd = (rd, none) :=
  recordNext_of_not_hasNext fun hn => absurd (h.hasNext_iff.mp hn).2 (Nat.lt_irrefl 0)

/-- One step where the lengths fit. -/
theorem At.step (h : At e p n rd) (hfit : rd.shmIter.hasHeader = true → LengthsFit m e.finish n p) :
    (∃ q k, At e q k (recordNext m rd).1 ∧
        ((recordNext m rd).1.shmIter.hasHeader = true → LengthsFit m e.finish k q)) ∧
      ∀ record, (recordNext m rd).2 = some record → record.DataInside e := by
  cases n with
  | zero =>
    rw [h.not_zero]
    refine ⟨⟨p, 0, h, hfit⟩, ?_⟩
    rintro _ ⟨⟩
  | succ n =>
    by_cases hcase : rd.shmIter.hasHeader = true ∧ p + 21 ≤ e.finish ∧ ofBE (m.read p 4) = EIMAGIC
    · obtain ⟨hh, hroom, hmagic⟩ := hcase
      obtain ⟨hlen, hrest⟩ := hfit hh hroom hmagic
      obtain ⟨-, hat, -, record, hrecord, hdata, hlen'⟩ := h.next_of_room hh hroom hmagic
      refine ⟨⟨_, n, hat hlen, fun _ => hrest⟩, ?_⟩
      rw [hrecord]
      rintro _ ⟨⟩
      exact (dataInside_iff h.start_le hroom hdata hlen').mpr hlen
    · obtain ⟨⟨q, hat, hshort⟩, hzero⟩ :=
        h.next_of_not_room fun hh hroom hmagic => hcase ⟨hh, hroom, hmagic⟩
      exact ⟨⟨q, n, hat, fun hh => LengthsFit.of_short (hshort hh)⟩,
        fun record hrecord => dataInside_of_dataLen (hzero record hrecord)⟩

theorem At.staysInside (h : At e p n rd) (hfit : rd.shmIter.hasHeader = true → LengthsFit m e.finish n p) :
    StaysInside m e rd := by
  intro k
  induction k generalizing rd p n with
  | zero => exact ⟨by rw [readerAfter, h.bfmt]; exact h.le_finish, (h.step hfit).2⟩
  | succ k ih =>
    obtain ⟨⟨q, n', hat, hfit'⟩, -⟩ := h.step hfit
    exact ih hat hfit'

theorem StaysInside.lengthsFit (hin : StaysInside m e rd) (h : At e p n rd)
    (hh : rd.shmIter.hasHeader = true) : LengthsFit m e.finish n p := by
  induction n generalizing rd p with
  | zero => exact trivial
  | succ n ih =>
    intro hroom hmagic
    obtain ⟨-, hat, hh', record, hrecord, hdata, hlen⟩ := h.next_of_room hh hroom hmagic
    have hfits := (dataInside_iff h.start_le hroom hdata hlen).mp ((hin 0).2 record hrecord)
    exact ⟨hfits, ih hin.next (hat hfits) hh'⟩

/-! ## A new iterator -/

theorem xmBfValueRead_lt (sz : Nat) (bf : XmBinFormat) : (xmBfValueRead sz m bf).1 < 2 ^ (8 * sz) := by
  rw [xmBfValueRead]
  split
  · exact Nat.two_pow_pos _
  · have hlen : (load m bf.pos sz).length = sz := by simp [load]
    have hlt := ofBE_lt (load m bf.pos sz)
    rwa [hlen] at hlt

theorem xmBfUint32Read_lt (bf : XmBinFormat) : (xmBfUint32Read m bf).1 < 2 ^ 32 := xmBfValueRead_lt 4 bf

theorem xmBfBytesRead_lt (bf : XmBinFormat) : (xmBfBytesRead m bf).2.1 < 2 ^ 64 := by
  rw [xmBfBytesRead]
  split
  · exact Nat.two_pow_pos 64
  · exact xmBfValueRead_lt 8 bf

theorem shmEntryHeaderRead_of_magic {header : XmShmEntryHeader}
    (h : (xmBfUint32Read m header.bfmt).1 = FIMAGIC) :
    (shmEntryHeaderRead m header).2 = true ∧
      (shmEntryHeaderRead m header).1.entriesNumber = (xmBfUint32Read m
        (xmBfUint32Read m (xmBfUint32Read m (xmBfUint32Read m header.bfmt).2).2).2).1 ∧
      (shmEntryHeaderRead m header).1.bfmt = (xmBfUint32Read m (xmBfUint32Read m
        (xmBfUint32Read m (xmBfUint32Read m (xmBfUint32Read m header.bfmt).2).2).2).2).2 := by
  simp only [shmEntryHeaderRead, h, ne_eq, not_true_eq_false, ite_false, and_self]

theorem shmEntryHeaderRead_of_not_magic {header : XmShmEntryHeader}
    (h : (xmBfUint32Read m header.bfmt).1 ≠ FIMAGIC) :
    (shmEntryHeaderRead m header).2 = false ∧
      (shmEntryHeaderRead m header).1.bfmt = (xmBfUint32Read m header.bfmt).2 := by
  simp only [shmEntryHeaderRead, if_pos h, and_self]

/-- Where the header does not fit in the entry, no record does. -/
theorem iteratorOn_at (m : Mem) (e : MappedEntry) (rd : XmShmReader) (indx : Nat) :
    ∃ q n, At e q n (iteratorOn m rd (e.toEntry indx)).1 ∧
      ((iteratorOn m rd (e.toEntry indx)).1.shmIter.hasHeader = true ↔
        e.start + 4 ≤ e.finish ∧ ofBE (m.read e.start 4) = FIMAGIC) ∧
      (e.start + 20 ≤ e.finish → ofBE (m.read e.start 4) = FIMAGIC →
        q = e.start + 20 ∧ n = ofBE (m.read (e.start + 12) 4)) ∧
      (e.finish < e.start + 20 → e.finish < q + 21) := by
  have hend := e.finish_le
  have hstart := e.start_le
  obtain ⟨header, hheader⟩ : ∃ header : XmShmEntryHeader, header =
    { rd.curHeader with shmEntry := e.toEntry indx, bfmt := xmBfInit e.start e.finish } := ⟨_, rfl⟩
  have hbfmt : header.bfmt = ⟨e.start, e.start, e.finish⟩ := by rw [hheader]; rfl
  have hiter : iteratorOn m rd (e.toEntry indx) =
      (⟨(shmEntryHeaderRead m header).1, (shmEntryHeaderRead m header).2, 0⟩, (shmEntryHeaderRead m header).2) := by
    rw [hheader, iteratorOn]
    rfl
  have hread := xmBfUint32Read_eq_iff m e.start hend hstart (show 0 < FIMAGIC by decide)
  obtain ⟨q₁, h₁, hq₁⟩ := xmBfValueRead_pos m e.start 4 hend hstart (by decide)
  rw [hiter]
  by_cases hmagic : (xmBfUint32Read m ⟨e.start, e.start, e.finish⟩).1 = FIMAGIC
  · obtain ⟨hok, hnumber, hpos⟩ := shmEntryHeaderRead_of_magic (hbfmt ▸ hmagic)
    obtain ⟨q₂, h₂, hq₂⟩ :=
      xmBfValueRead_pos m e.start 4 (p := q₁) hend (by omega) (by decide)
    obtain ⟨q₃, h₃, hq₃⟩ :=
      xmBfValueRead_pos m e.start 4 (p := q₂) hend (by omega) (by decide)
    obtain ⟨q₄, h₄, hq₄⟩ :=
      xmBfValueRead_pos m e.start 4 (p := q₃) hend (by omega) (by decide)
    obtain ⟨q₅, h₅, hq₅⟩ :=
      xmBfValueRead_pos m e.start 4 (p := q₄) hend (by omega) (by decide)
    have hlt := xmBfUint32Read_lt (m := m) ⟨e.start, q₃, e.finish⟩
    simp only [hbfmt, xmBfUint32Read, h₁, h₂, h₃, h₄, h₅] at hnumber hpos
    refine ⟨q₅, (xmBfValueRead 4 m ⟨e.start, q₃, e.finish⟩).1, ⟨hpos, by omega, by omega, fun _ => ?_⟩, ?_,
      fun hroom _ => ⟨by omega, ?_⟩, fun hshort => by omega⟩
    · rw [hnumber]
      exact ⟨hlt, Nat.zero_add _⟩
    · exact ⟨fun _ => hread.mp hmagic, fun _ => hok⟩
    · rw [show q₃ = e.start + 12 by omega, xmBfValueRead_of_fits hend (by decide) (by omega)]
  · obtain ⟨hfail, hpos⟩ := shmEntryHeaderRead_of_not_magic (hbfmt ▸ hmagic)
    refine ⟨q₁, 0, ⟨?_, by omega, by omega, fun hh => ?_⟩, ?_, fun hroom hm => ?_, fun hshort => by omega⟩
    · rw [hpos, hbfmt, xmBfUint32Read, h₁]
    · exact absurd (hfail.symm.trans hh) Bool.false_ne_true
    · exact ⟨fun hh => absurd (hfail.symm.trans hh) Bool.false_ne_true,
        fun hm => absurd (hread.mpr hm) hmagic⟩
    · exact absurd (hread.mpr ⟨by omega, hm⟩) hmagic

/-- The records of an iterator on an entry of any content stay inside it, and so does the position, exactly
when the lengths that stand in the entry fit in it. -/
theorem recordNext_staysInside_iff (m : Mem) (e : MappedEntry) (rd : XmShmReader) (indx : Nat) :
    StaysInside m e (iteratorOn m rd (e.toEntry indx)).1 ↔ EntryLengthsFit m e := by
  obtain ⟨q, n, hat, hheader, hroom, hshort⟩ := iteratorOn_at m e rd indx
  constructor
  · intro hin hfits hmagic
    rw [xmShmEntryHeaderLen] at hfits
    have hlengths := hin.lengthsFit hat (hheader.mpr ⟨by omega, hmagic⟩)
    obtain ⟨hq, hn⟩ := hroom hfits hmagic
    rwa [hq, hn] at hlengths
  · intro hlengths
    refine hat.staysInside fun hh => ?_
    have hmagic := (hheader.mp hh).2
    by_cases hfits : e.start + 20 ≤ e.finish
    · obtain ⟨hq, hn⟩ := hroom hfits hmagic
      rw [hq, hn]
      exact hlengths hfits hmagic
    · exact LengthsFit.of_short (hshort (by omega))

end

/-! ## A length that runs over the end -/

/-- A page with the header of a chunk of one record, whose data length is 2^64 - 1. -/
def overlongPage : Mem := fun i =>
  ([0, 0, 0xFF, 0xFA, 0, 0, 0, 1, 0, 0, 0, 0, 0, 0, 0, 1, 0, 0, 0, 21,
    0, 0, 0xFF, 0xFB, 0, 0, 0, 21, 0, 0, 0, 0, 0, 255, 255, 255, 255, 255, 255, 255, 255]).getD (i - 4096) 0

def pageAt4096 : MappedEntry where
  start := 4096
  finish := 8192
  start_le := by decide
  finish_le := by decide

theorem recordNext_runs_over :
    ¬ StaysInside overlongPage pageAt4096
      (iteratorOn overlongPage ⟨⟨⟨0, 0, 0⟩, ⟨0, 0, 0⟩, 0, 0, 0, 0, 0⟩, ⟨false, 0⟩⟩ (pageAt4096.toEntry 0)).1 := by
  intro h
  obtain ⟨q, n, hat, hheader, hroom, -⟩ := iteratorOn_at overlongPage pageAt4096 _ 0
  have hlengths := h.lengthsFit hat (hheader.mpr (by decide))
  obtain ⟨hq, hn⟩ := hroom (by decide) (by decide)
  rw [hq, hn] at hlengths
  exact absurd hlengths (by decide)

end Xmap.Shm.Ptr
