import Xmap.Api.EntryReader

/-!
# Theorems on the entry reader

A malformed record makes the iterator drop its header, and without a header the entry is not committed. A length
that is too long lets the copy run out of what can be read. So the reader gets past a chunk exactly when every
record that it announces is there and can be copied.
-/

namespace Xmap.Api

open Xmap.Lib Xmap.Shm

/-! ## The records of a chunk -/

/-- Where the records start, each behind the one before it. -/
def recordPlace (m : Mem) (e : Ptr.MappedEntry) : Nat → Nat
  | 0 => e.start + xmShmEntryHeaderLen
  | k + 1 => (Ptr.afterRecord m ⟨e.start, recordPlace m e k, e.finish⟩).pos

def RecordMagic (m : Mem) (e : Ptr.MappedEntry) (k : Nat) : Prop :=
  (Ptr.xmBfUint32Read m ⟨e.start, recordPlace m e k, e.finish⟩).1 = EIMAGIC

/-- The number of records that the header announces. -/
def recordCount (m : Mem) (e : Ptr.MappedEntry) : Nat := ofBE (m.read (e.start + 12) 4)

/-- The pointer to the data of a record, and its length. -/
def recordData (m : Mem) (e : Ptr.MappedEntry) (k : Nat) : Nat × Nat :=
  let r := Ptr.xmBfBytesRead m (Ptr.afterFields m ⟨e.start, recordPlace m e k, e.finish⟩)
  (r.1, r.2.1)

/-- The length of a record is no negative `long`, and where the buffer has room for its data, the data can be
read. -/
def RecordCopied (readable : Nat → Bool) (cap : Nat) (m : Mem) (e : Ptr.MappedEntry) (k : Nat) : Prop :=
  (recordData m e k).2 < 2 ^ 63 ∧
    ((recordData m e k).2 ≤ cap → ∀ i < (recordData m e k).2, readable (Ptr.add (recordData m e k).1 i) = true)

/-- The header and every announced record have their magic, and every record can be copied. -/
structure Clean (readable : Nat → Bool) (cap : Nat) (m : Mem) (e : Ptr.MappedEntry) : Prop where
  header : ofBE (m.read e.start 4) = FIMAGIC
  magic : ∀ k < recordCount m e, RecordMagic m e k
  copied : ∀ k < recordCount m e, RecordCopied readable cap m e k

/-- A place, counted from the start of the entry. -/
def relative (e : Ptr.MappedEntry) (p : Nat) : Nat := (p + 2 ^ 64 - e.start) % 2 ^ 64

section
variable {m : Mem} {e : Ptr.MappedEntry} {bf : XmBinFormat}

/-- A read moves the position only. -/
structure Moves (bf bf' : XmBinFormat) : Prop where
  start : bf'.start = bf.start
  finish : bf'.finish = bf.finish

theorem Moves.trans {bf' bf'' : XmBinFormat} (h : Moves bf bf') (h' : Moves bf' bf'') : Moves bf bf'' where
  start := h'.start.trans h.start
  finish := h'.finish.trans h.finish

theorem moves_posUpdate (n : Nat) : Moves bf (Ptr.xmBfPosUpdate bf n) := ⟨rfl, rfl⟩

theorem moves_valueRead (sz : Nat) : Moves bf (Ptr.xmBfValueRead sz m bf).2 := by
  rw [Ptr.xmBfValueRead]
  split
  · exact ⟨rfl, rfl⟩
  · exact moves_posUpdate sz

theorem moves_bytesRead : Moves bf (Ptr.xmBfBytesRead m bf).2.2 := by
  rw [Ptr.xmBfBytesRead]
  split
  · exact ⟨rfl, rfl⟩
  · exact Moves.trans (moves_valueRead 8) (moves_posUpdate _)

theorem moves_afterFields : Moves bf (Ptr.afterFields m bf) := by
  simp only [Ptr.afterFields, Ptr.xmBfUint32Read, Ptr.xmBfUint8Read]
  exact (((moves_valueRead 4).trans (moves_valueRead 4)).trans (moves_valueRead 1)).trans (moves_valueRead 4)

theorem moves_afterRecord : Moves bf (Ptr.afterRecord m bf) := by
  rw [Ptr.afterRecord]
  exact moves_afterFields.trans moves_bytesRead

theorem afterRecord_place (k : Nat) : Ptr.afterRecord m ⟨e.start, recordPlace m e k, e.finish⟩ =
    ⟨e.start, recordPlace m e (k + 1), e.finish⟩ := by
  have h : Moves ⟨e.start, recordPlace m e k, e.finish⟩
    (Ptr.afterRecord m ⟨e.start, recordPlace m e k, e.finish⟩) := moves_afterRecord
  rw [recordPlace]
  generalize Ptr.afterRecord m ⟨e.start, recordPlace m e k, e.finish⟩ = bf at h
  obtain ⟨start, pos, finish⟩ := bf
  obtain rfl : start = e.start := h.start
  obtain rfl : finish = e.finish := h.finish
  rfl

/-- A record with its magic, and with a length that is no negative `long`, ends behind its start, and the
pointer does not wrap. -/
theorem afterRecord_behind {p : Nat} (hfinish : e.finish + 4096 ≤ 2 ^ 63) (hp : p + 4096 ≤ 2 ^ 64)
    (hmagic : (Ptr.xmBfUint32Read m ⟨e.start, p, e.finish⟩).1 = EIMAGIC)
    (hlen : (Ptr.xmBfBytesRead m (Ptr.afterFields m ⟨e.start, p, e.finish⟩)).2.1 < 2 ^ 63) :
    p < (Ptr.afterRecord m ⟨e.start, p, e.finish⟩).pos ∧
      (Ptr.afterRecord m ⟨e.start, p, e.finish⟩).pos + 4096 ≤ 2 ^ 64 := by
  have hend := e.finish_le
  have hle : p ≤ e.finish := by
    by_contra hbehind
    have hadd : Ptr.add p 4 = p + 4 := Ptr.add_eq (by omega)
    have hfull : Ptr.xmBfFull ⟨e.start, p, e.finish⟩ 4 := by
      show e.finish < Ptr.add p 4
      omega
    rw [Ptr.xmBfUint32Read, Ptr.xmBfValueRead, if_pos hfull] at hmagic
    exact absurd hmagic (show ¬ 0 = EIMAGIC by decide)
  obtain ⟨hfits, -⟩ := (Ptr.xmBfUint32Read_eq_iff m e.start hend hle (by decide)).mp hmagic
  rw [Ptr.afterRecord]
  by_cases hroom : p + 21 ≤ e.finish
  · rw [Ptr.xmBfBytesRead_of_room hend hroom] at hlen ⊢
    have hlen : Ptr.dataLenAt m p < 2 ^ 63 := hlen
    have hadd : Ptr.add (p + 21) (Ptr.dataLenAt m p) = p + 21 + Ptr.dataLenAt m p := Ptr.add_eq (by omega)
    simp only [hadd]
    omega
  · obtain ⟨q, -, hq, hbehind, hshort⟩ := Ptr.xmBfBytesRead_of_short m e.start hend hle (by omega)
    have := hbehind hfits
    simp only [hshort]
    omega

theorem relative_recordPlace_zero (h : e.start + xmShmEntryHeaderLen ≤ e.finish) :
    relative e (recordPlace m e 0) = xmShmEntryHeaderLen := by
  have hend := e.finish_le
  rw [relative, recordPlace]
  omega

theorem relative_inj {p q : Nat} (hp : p < 2 ^ 64) (hq : q < 2 ^ 64) (h : relative e p = relative e q) :
    p = q := by
  have hstart := e.start_le
  have hend := e.finish_le
  rw [relative, relative] at h
  omega

end

/-! ## The copy -/

/-- A record without data is not copied, and one with data is copied or left out. -/
theorem xmSendDataToJava_iff {readable : Nat → Bool} {cap data dlen : Nat} (hcap : cap < 2 ^ 31)
    (hlt : dlen < 2 ^ 64) : dlen = 0 ∨ xmSendDataToJava readable cap data dlen = true ↔
      dlen < 2 ^ 63 ∧ (dlen ≤ cap → ∀ i < dlen, readable (Ptr.add data i) = true) := by
  have hlarge : (cap : Int) < longOf dlen ↔ cap < dlen ∧ dlen < 2 ^ 63 := by
    unfold longOf
    split <;> omega
  rw [xmSendDataToJava]
  by_cases hskip : cap < dlen ∧ dlen < 2 ^ 63
  · rw [if_pos (hlarge.mpr hskip)]
    exact iff_of_true (Or.inr rfl) ⟨hskip.2, fun hle => absurd hskip.1 (Nat.not_lt.mpr hle)⟩
  · rw [if_neg (mt hlarge.mp hskip)]
    simp only [Bool.and_eq_true, decide_eq_true_eq, List.all_eq_true, List.mem_range]
    constructor
    · rintro (rfl | ⟨hle, hall⟩)
      · exact ⟨Nat.two_pow_pos 63, fun _ i hi => absurd hi (Nat.not_lt_zero i)⟩
      · exact ⟨by omega, fun _ => hall⟩
    · rintro ⟨hlt, hall⟩
      have hle : dlen ≤ cap := by omega
      exact Or.inr ⟨hle, hall hle⟩

theorem recordData_lt (m : Mem) (e : Ptr.MappedEntry) (k : Nat) : (recordData m e k).2 < 2 ^ 64 := by
  simp only [recordData]
  exact Ptr.xmBfBytesRead_lt _

theorem recordCopied_iff (readable : Nat → Bool) {cap : Nat} (hcap : cap < 2 ^ 31) (m : Mem)
    (e : Ptr.MappedEntry) (k : Nat) : RecordCopied readable cap m e k ↔ (recordData m e k).2 = 0 ∨
      xmSendDataToJava readable cap (recordData m e k).1 (recordData m e k).2 = true := by
  rw [RecordCopied, xmSendDataToJava_iff hcap (recordData_lt m e k)]

/-! ## Calls of `read` -/

section
variable {file : Mem} {mh : XmShmHeader} {env : ReaderEnv file mh} {hd : XmShmHeader} {k i : Nat}
  {s : ReaderState}

/-- The memory that the process sees once it has mapped the entry at the read position. -/
def ReaderEnv.memAt (env : ReaderEnv file mh) (hd : XmShmHeader) (k : Nat) : Mem := env.mem k (readOffset hd)

def ReaderEnv.entryAt (env : ReaderEnv file mh) (hd : XmShmHeader) (k : Nat) : Ptr.MappedEntry :=
  env.entry k (readOffset hd)

/-- The iterator of the given mapping has delivered some records of its entry. -/
structure Walking (env : ReaderEnv file mh) (hd : XmShmHeader) (k i : Nat) (s : ReaderState) : Prop where
  header : s.header = hd
  eiter : s.context.eiter = true
  maps : s.context.maps = k + 1
  iter : s.context.shmFmt.shmIter = ⟨true, i⟩
  bfmt : s.context.shmFmt.curHeader.bfmt = ⟨(env.entryAt hd k).start,
    recordPlace (env.memAt hd k) (env.entryAt hd k) i, (env.entryAt hd k).finish⟩
  number : s.context.shmFmt.curHeader.entriesNumber = recordCount (env.memAt hd k) (env.entryAt hd k)

theorem prepareIterOk_of_eiter (h : s.context.eiter = true) : prepareIterOk env s = (s.context, true) := by
  rw [prepareIterOk, if_pos h]

theorem Walking.hasNext_iff (h : Walking env hd k i s) :
    hasNext s.context.shmFmt ↔ i < recordCount (env.memAt hd k) (env.entryAt hd k) := by
  rw [hasNext, h.iter, h.number]
  exact ⟨And.right, fun hi => ⟨rfl, hi⟩⟩

theorem header_fits (env : ReaderEnv file mh) (hd : XmShmHeader) (k : Nat) :
    (env.entryAt hd k).start + xmShmEntryHeaderLen ≤ (env.entryAt hd k).finish :=
  Nat.add_le_add_left (le_trans (by decide) env.page_le) _

theorem recordCount_lt (m : Mem) (e : Ptr.MappedEntry) : recordCount m e < 2 ^ 32 := by
  have hlt := ofBE_lt (m.read (e.start + 12) 4)
  rwa [Mem.length_read] at hlt

/-- The record of the walk can be copied. -/
def ReaderEnv.CopiedAt (env : ReaderEnv file mh) (hd : XmShmHeader) (k i : Nat) : Prop :=
  RecordCopied (env.readable k (readOffset hd)) env.cap (env.memAt hd k) (env.entryAt hd k) i

/-- A call at a record with its magic copies it and delivers it, or ends the process. -/
theorem Walking.read_of_magic (h : Walking env hd k i s)
    (hi : i < recordCount (env.memAt hd k) (env.entryAt hd k))
    (hmagic : RecordMagic (env.memAt hd k) (env.entryAt hd k) i) :
    (env.CopiedAt hd k i → ∃ s', read env s = some (s', 0, some (relative (env.entryAt hd k)
        (recordPlace (env.memAt hd k) (env.entryAt hd k) i))) ∧ Walking env hd k (i + 1) s') ∧
      (¬ env.CopiedAt hd k i → read env s = none) := by
  have hmem : env.mem (k + 1 - 1) (readOffset hd) = env.memAt hd k := rfl
  have hlt := recordCount_lt (env.memAt hd k) (env.entryAt hd k)
  have hread : (Ptr.xmBfUint32Read (env.memAt hd k) s.context.shmFmt.curHeader.bfmt).1 = EIMAGIC := by
    rw [h.bfmt]
    exact hmagic
  obtain ⟨record, hnext, hdata, hlen⟩ := Ptr.recordNext_of_magic (h.hasNext_iff.mpr hi) hread
  have hcount : (i + 1) % 2 ^ 32 = i + 1 := Nat.mod_eq_of_lt (by omega)
  rw [h.bfmt] at hdata hlen
  have hcopied : env.CopiedAt hd k i ↔ record.dataLen = 0 ∨
      xmSendDataToJava (env.readable (k + 1 - 1) (readOffset hd)) env.cap record.data record.dataLen = true := by
    have hiff := recordCopied_iff (env.readable k (readOffset hd)) env.cap_lt (env.memAt hd k) (env.entryAt hd k) i
    simp only [recordData] at hiff
    rw [hdata, hlen]
    exact hiff
  simp only [h.bfmt, afterRecord_place, h.iter, hcount] at hnext
  simp only [read, prepareIterOk_of_eiter h.eiter, if_true, h.header, h.maps, hmem, hnext, h.bfmt]
  constructor
  · intro hc
    rw [if_pos (hcopied.mp hc)]
    exact ⟨_, rfl, rfl, h.eiter, rfl, rfl, rfl, h.number⟩
  · intro hc
    rw [if_neg (mt hcopied.mpr hc)]

/-- The call at the end of a chunk commits its entry. -/
theorem Walking.read_of_end (h : Walking env hd k i s)
    (hi : i = recordCount (env.memAt hd k) (env.entryAt hd k)) :
    ∃ s', read env s = some (s', -1, none) ∧ s'.header = xmShmEntryPosUpdate hd false := by
  have hnext : Ptr.recordNext (env.mem (s.context.maps - 1) (readOffset hd)) s.context.shmFmt =
      (s.context.shmFmt, none) :=
    Ptr.recordNext_of_not_hasNext fun hn => absurd (h.hasNext_iff.mp hn) (by omega)
  have hiter : s.context.shmFmt.shmIter.hasHeader = true := by rw [h.iter]
  simp only [read, prepareIterOk_of_eiter h.eiter, if_true, h.header, hnext]
  refine ⟨_, rfl, ?_⟩
  simp only [iteratorCommit, hiter, if_true, xmShmEntryCommit]

/-- The call at a record without its magic forgets the iterator and commits nothing. -/
theorem Walking.read_of_not_magic (h : Walking env hd k i s)
    (hi : i < recordCount (env.memAt hd k) (env.entryAt hd k))
    (hmagic : ¬ RecordMagic (env.memAt hd k) (env.entryAt hd k) i) :
    ∃ fmt, read env s = some (ReaderState.idle hd fmt (k + 1), -1, none) := by
  have hmem : env.mem (k + 1 - 1) (readOffset hd) = env.memAt hd k := rfl
  have hread : (Ptr.xmBfUint32Read (env.memAt hd k) s.context.shmFmt.curHeader.bfmt).1 ≠ EIMAGIC := by
    rw [h.bfmt]
    exact hmagic
  obtain ⟨hnone, hiter, -⟩ := Ptr.recordNext_of_not_magic (h.hasNext_iff.mpr hi) hread
  simp only [read, prepareIterOk_of_eiter h.eiter, if_true, h.header, h.maps, hmem, hnone, iteratorCommit, hiter,
    Bool.false_eq_true, if_false, ReaderState.idle]
  exact ⟨_, rfl⟩

/-! ## A new iterator -/

theorem shmEntryCanGet_read {hd : XmShmHeader} (h : xmShmEmpty hd = false) : shmEntryCanGet hd false = true := by
  simp [shmEntryCanGet, h]

/-- The iterator on the entry at the read position. -/
def ReaderEnv.iterator (env : ReaderEnv file mh) (hd : XmShmHeader) (fmt : XmShmReader) (k : Nat) :
    XmShmReader × Bool :=
  Ptr.iteratorOn (env.memAt hd k) fmt ((env.entryAt hd k).toEntry (shmEntryIndexGet hd false))

theorem prepareIterOk_idle {fmt : XmShmReader} (hempty : xmShmEmpty hd = false) :
    prepareIterOk env (ReaderState.idle hd fmt k) =
      ({ shmFmt := (env.iterator hd fmt k).1, eiter := (env.iterator hd fmt k).2, maps := k + 1 },
        (env.iterator hd fmt k).2) := by
  simp only [prepareIterOk, ReaderState.idle, Bool.false_eq_true, if_false, shmEntryCanGet_read hempty, if_true]
  rfl

/-- A call without an iterator, on a chunk whose header has its magic, goes on as one with it. -/
theorem read_idle_of_magic (env : ReaderEnv file mh) (k : Nat) (fmt : XmShmReader) (hempty : xmShmEmpty hd = false)
    (h : ofBE ((env.memAt hd k).read (env.entryAt hd k).start 4) = FIMAGIC) :
    ∃ s, Walking env hd k 0 s ∧ read env (ReaderState.idle hd fmt k) = read env s := by
  obtain ⟨q, n, hat, hheader, hroom, -⟩ := Ptr.iteratorOn_at (env.memAt hd k) (env.entryAt hd k) fmt
    (shmEntryIndexGet hd false)
  have hpage : (env.entryAt hd k).finish = (env.entryAt hd k).start + mh.shmEntrySize := rfl
  have hsize := env.page_le
  obtain ⟨hq, hn⟩ := hroom (by omega) h
  have hh : (env.iterator hd fmt k).1.shmIter.hasHeader = true := hheader.mpr ⟨by omega, h⟩
  have hok : (env.iterator hd fmt k).2 = true := hh
  refine ⟨{ header := hd, context := { shmFmt := (env.iterator hd fmt k).1, eiter := true, maps := k + 1 } },
    ⟨rfl, rfl, rfl, ?_, ?_, ?_⟩, ?_⟩
  · rw [← hh]
    rfl
  · exact hat.bfmt.trans (by rw [hq]; rfl)
  · exact (hat.left hh).2.symm.trans ((Nat.zero_add n).trans hn)
  · rw [read, read, prepareIterOk_idle hempty, prepareIterOk_of_eiter rfl, hok]
    rfl

/-- On a chunk whose header has not, the call commits nothing and leaves no iterator. -/
theorem read_idle_of_not_magic {fmt : XmShmReader} (hempty : xmShmEmpty hd = false)
    (h : ofBE ((env.memAt hd k).read (env.entryAt hd k).start 4) ≠ FIMAGIC) :
    read env (ReaderState.idle hd fmt k) =
      some (ReaderState.idle hd (env.iterator hd fmt k).1 (k + 1), -2, none) := by
  obtain ⟨q, n, -, hheader, -⟩ := Ptr.iteratorOn_at (env.memAt hd k) (env.entryAt hd k) fmt
    (shmEntryIndexGet hd false)
  have hfail : (env.iterator hd fmt k).2 = false := by
    rw [← Bool.not_eq_true]
    exact fun hok => h (hheader.mp hok).2
  rw [read, prepareIterOk_idle hempty, hfail]
  rfl

/-! ## Runs of calls -/

theorem reads_succ {s t : ReaderState} {v : Int} {place : Option Nat} (h : read env s = some (t, v, place))
    (n : Nat) : reads env (n + 1) s = (reads env n t).map fun r => (r.1, place.toList ++ r.2) := by
  simp only [reads, h]

theorem reads_succ_of_none {s : ReaderState} (h : read env s = none) (n : Nat) : reads env (n + 1) s = none := by
  simp only [reads, h]

theorem reads_add (a b : Nat) (s : ReaderState) : reads env (a + b) s =
    (reads env a s).bind fun r => (reads env b r.1).map fun q => (q.1, r.2 ++ q.2) := by
  induction a generalizing s with
  | zero => simp [reads]
  | succ a ih =>
    rw [Nat.succ_add]
    cases h : read env s with
    | none => rw [reads_succ_of_none h, reads_succ_of_none h, Option.bind_none]
    | some r =>
      obtain ⟨t, v, place⟩ := r
      rw [reads_succ h, reads_succ h, ih]
      cases reads env a t with
      | none => rfl
      | some q => simp [Function.comp_def]

theorem reads_succ_congr {s' : ReaderState} (h : read env s = read env s') (n : Nat) :
    reads env (n + 1) s = reads env (n + 1) s' := by
  rw [reads, reads, h]

/-- The places of the first records of the chunk, counted from its start. -/
def ReaderEnv.places (env : ReaderEnv file mh) (hd : XmShmHeader) (k n : Nat) : List Nat :=
  (List.range n).map fun j => relative (env.entryAt hd k) (recordPlace (env.memAt hd k) (env.entryAt hd k) j)

/-- The first records of the chunk have their magic and can be copied. -/
def ReaderEnv.GoodUpTo (env : ReaderEnv file mh) (hd : XmShmHeader) (k n : Nat) : Prop :=
  ∀ j < n, RecordMagic (env.memAt hd k) (env.entryAt hd k) j ∧ env.CopiedAt hd k j

theorem ReaderEnv.GoodUpTo.mono {n n' : Nat} (h : env.GoodUpTo hd k n) (hle : n' ≤ n) : env.GoodUpTo hd k n' :=
  fun j hj => h j (by omega)

theorem Walking.reads {n : Nat} (h : Walking env hd k 0 s)
    (hn : n ≤ recordCount (env.memAt hd k) (env.entryAt hd k)) (hgood : env.GoodUpTo hd k n) :
    ∃ s', reads env n s = some (s', env.places hd k n) ∧ Walking env hd k n s' := by
  induction n with
  | zero => exact ⟨s, rfl, h⟩
  | succ n ih =>
    obtain ⟨s', hrun, hw⟩ := ih (by omega) (hgood.mono (Nat.le_succ n))
    obtain ⟨hmagic, hcopied⟩ := hgood n (Nat.lt_succ_self n)
    obtain ⟨s'', hread, hw'⟩ := (hw.read_of_magic (by omega) hmagic).1 hcopied
    refine ⟨s'', ?_, hw'⟩
    rw [reads_add, hrun, Option.bind_some, reads_succ hread, Xmap.Api.reads, ReaderEnv.places, ReaderEnv.places,
      List.range_succ, List.map_append]
    rfl

/-- Up to the end of the chunk, or its first record without magic, nothing is committed. -/
theorem reads_header {fmt : XmShmReader} {n : Nat} (hw : Walking env hd k 0 s)
    (hread : read env (ReaderState.idle hd fmt k) = read env s)
    (hn : n ≤ recordCount (env.memAt hd k) (env.entryAt hd k)) (hgood : env.GoodUpTo hd k n)
    (r : ReaderState × List Nat) (hr : reads env n (ReaderState.idle hd fmt k) = some r) : r.1.header = hd := by
  cases n with
  | zero =>
    obtain rfl := Option.some.inj hr
    rfl
  | succ n =>
    obtain ⟨s', hrun, hw'⟩ := hw.reads hn hgood
    rw [reads_succ_congr hread, hrun] at hr
    obtain rfl := Option.some.inj hr
    exact hw'.header

/-! ## What stands in the file -/

theorem memAt_read {j n : Nat} (h : j + n ≤ mh.shmEntrySize) :
    (env.memAt hd k).read ((env.entryAt hd k).start + j) n = file.read (readOffset hd + j) n := by
  refine List.map_congr_left fun i hi => ?_
  have hi := List.mem_range.mp hi
  rw [Nat.add_assoc, Nat.add_assoc]
  exact env.shows k (readOffset hd) (j + i) (by omega)

theorem headerMagic_iff : ofBE ((env.memAt hd k).read (env.entryAt hd k).start 4) = FIMAGIC ↔
    ofBE (file.read (readOffset hd) 4) = FIMAGIC := by
  have hpage := env.page_le
  have h : (env.memAt hd k).read ((env.entryAt hd k).start + 0) 4 = file.read (readOffset hd + 0) 4 :=
    memAt_read (by omega)
  rw [Nat.add_zero, Nat.add_zero] at h
  rw [h]

theorem recordCount_eq : recordCount (env.memAt hd k) (env.entryAt hd k) =
    ofBE (file.read (readOffset hd + 12) 4) := by
  have hpage := env.page_le
  rw [recordCount, memAt_read (by omega)]

theorem recordMagic_zero_iff : RecordMagic (env.memAt hd k) (env.entryAt hd k) 0 ↔
    ofBE (file.read (readOffset hd + xmShmEntryHeaderLen) 4) = EIMAGIC := by
  have hpage := env.page_le
  have hfinish : (env.entryAt hd k).finish = (env.entryAt hd k).start + mh.shmEntrySize := rfl
  have hread := Ptr.xmBfUint32Read_eq_iff (env.memAt hd k) (env.entryAt hd k).start
    (p := (env.entryAt hd k).start + xmShmEntryHeaderLen) (env.entryAt hd k).finish_le
    (by rw [xmShmEntryHeaderLen]; omega) (show 0 < EIMAGIC by decide)
  rw [memAt_read (by rw [xmShmEntryHeaderLen]; omega)] at hread
  rw [RecordMagic, recordPlace, hread]
  exact and_iff_right (by rw [xmShmEntryHeaderLen]; omega)

/-- A chunk whose header or first record has not its magic is never committed. -/
theorem reads_stuck {fmt : XmShmReader} (hempty : xmShmEmpty hd = false)
    (h : ofBE (file.read (readOffset hd) 4) = FIMAGIC → 0 < ofBE (file.read (readOffset hd + 12) 4) ∧
      ofBE (file.read (readOffset hd + xmShmEntryHeaderLen) 4) ≠ EIMAGIC) (n : Nat)
    (r : ReaderState × List Nat) (hr : reads env n (ReaderState.idle hd fmt k) = some r) : r.1.header = hd := by
  induction n generalizing fmt k r with
  | zero =>
    obtain rfl := Option.some.inj hr
    rfl
  | succ n ih =>
    have hidle : ∃ fmt' v, read env (ReaderState.idle hd fmt k) =
        some (ReaderState.idle hd fmt' (k + 1), v, none) := by
      by_cases hmagic : ofBE (file.read (readOffset hd) 4) = FIMAGIC
      · obtain ⟨s, hw, hread⟩ := read_idle_of_magic env k fmt hempty (headerMagic_iff.mpr hmagic)
        obtain ⟨hcount, hfirst⟩ := h hmagic
        obtain ⟨fmt', hread'⟩ := hw.read_of_not_magic (by rwa [recordCount_eq]) (mt recordMagic_zero_iff.mp hfirst)
        exact ⟨fmt', -1, hread.trans hread'⟩
      · exact ⟨_, -2, read_idle_of_not_magic hempty (mt headerMagic_iff.mp hmagic)⟩
    obtain ⟨fmt', v, hread⟩ := hidle
    rw [reads_succ hread] at hr
    obtain ⟨q, hq, rfl⟩ := Option.map_eq_some_iff.mp hr
    exact ih q hq

end

/-! ## The malformed chunks -/

/-- Within 2^32 calls of `read` the entry is committed, once, and none of its records is delivered twice. -/
def GetsPast {file : Mem} {mh : XmShmHeader} (env : ReaderEnv file mh) (fmt : XmShmReader) (k : Nat) : Prop :=
  ∃ n ≤ 2 ^ 32, ∃ s places, reads env n (ReaderState.idle mh fmt k) = some (s, places) ∧
    s.header = xmShmEntryPosUpdate mh false ∧ places.Nodup ∧
    ∀ j < n, ∀ r, reads env j (ReaderState.idle mh fmt k) = some r → r.1.header = mh

/-- The content of the entry that the next call maps. -/
def ReaderEnv.Clean {file : Mem} {mh : XmShmHeader} (env : ReaderEnv file mh) (k : Nat) : Prop :=
  Xmap.Api.Clean (env.readable k (readOffset mh)) env.cap (env.memAt mh k) (env.entryAt mh k)

section
variable {file : Mem} {mh : XmShmHeader} {env : ReaderEnv file mh} {fmt : XmShmReader} {k : Nat}

theorem xmShmEntryPosUpdate_ne (mh : XmShmHeader) : mh ≠ xmShmEntryPosUpdate mh false := by
  intro h
  have hcount := congrArg XmShmHeader.shmEntriesCountCur h
  simp only [xmShmEntryPosUpdate, XmShmHeader.stepPos, addCount, Bool.false_eq_true, if_false] at hcount
  omega

/-- Data that lies in the entry can be copied. -/
theorem ReaderEnv.copiedAt_of_inside {i : Nat}
    (hstart : (env.entryAt mh k).start ≤ (recordData (env.memAt mh k) (env.entryAt mh k) i).1)
    (hfinish : (recordData (env.memAt mh k) (env.entryAt mh k) i).1 +
      (recordData (env.memAt mh k) (env.entryAt mh k) i).2 ≤ (env.entryAt mh k).finish) :
    env.CopiedAt mh k i := by
  have hend := env.finish_le k (readOffset mh)
  have hs : (env.entryAt mh k).start = env.addressGet k (readOffset mh) := rfl
  have hf : (env.entryAt mh k).finish = env.addressGet k (readOffset mh) + mh.shmEntrySize := rfl
  rw [ReaderEnv.CopiedAt, RecordCopied]
  generalize recordData (env.memAt mh k) (env.entryAt mh k) i = d at hstart hfinish ⊢
  refine ⟨by omega, fun _ j hj => ?_⟩
  have hread := env.readable_entry k (readOffset mh) (d.1 + j - env.addressGet k (readOffset mh)) (by omega)
  rwa [show env.addressGet k (readOffset mh) + (d.1 + j - env.addressGet k (readOffset mh)) =
    Ptr.add d.1 j by rw [Ptr.add_eq (by omega)]; omega] at hread

/-- The records of a good chunk stand one behind the other. -/
theorem recordPlace_mono {n : Nat} (hgood : env.GoodUpTo mh k n) : ∀ j ≤ n,
    recordPlace (env.memAt mh k) (env.entryAt mh k) j + 4096 ≤ 2 ^ 64 ∧ ∀ i < j,
      recordPlace (env.memAt mh k) (env.entryAt mh k) i < recordPlace (env.memAt mh k) (env.entryAt mh k) j := by
  intro j hj
  have hfinish : (env.entryAt mh k).finish + 4096 ≤ 2 ^ 63 := env.finish_le k (readOffset mh)
  induction j with
  | zero =>
    have hfits := header_fits env mh k
    refine ⟨?_, fun i hi => absurd hi (Nat.not_lt_zero i)⟩
    rw [recordPlace]
    omega
  | succ j ih =>
    obtain ⟨hplace, hbefore⟩ := ih (by omega)
    obtain ⟨hmagic, hcopied⟩ := hgood j hj
    have hlen := hcopied.1
    simp only [recordData] at hlen
    obtain ⟨hlt, hnext⟩ := afterRecord_behind hfinish hplace hmagic hlen
    refine ⟨hnext, fun i hi => ?_⟩
    rcases Nat.lt_or_eq_of_le (Nat.le_of_lt_succ hi) with hi | rfl
    · exact (hbefore i hi).trans hlt
    · exact hlt

theorem places_nodup {n : Nat} (hgood : env.GoodUpTo mh k n) : (env.places mh k n).Nodup := by
  refine List.Nodup.map_on (fun i hi j hj heq => ?_) List.nodup_range
  have hi := List.mem_range.mp hi
  have hj := List.mem_range.mp hj
  obtain ⟨hlt, hbelow⟩ := recordPlace_mono hgood i hi.le
  obtain ⟨hlt', hbelow'⟩ := recordPlace_mono hgood j hj.le
  have hplace := relative_inj (by omega) (by omega) heq
  rcases Nat.lt_trichotomy i j with hij | hij | hij
  · exact absurd hplace (hbelow' i hij).ne
  · exact hij
  · exact absurd hplace (hbelow j hij).ne'

theorem GetsPast.of_clean (hempty : xmShmEmpty mh = false) (h : env.Clean k) : GetsPast env fmt k := by
  have hgood : env.GoodUpTo mh k (recordCount (env.memAt mh k) (env.entryAt mh k)) :=
    fun j hj => ⟨h.magic j hj, h.copied j hj⟩
  obtain ⟨s, hw, hread⟩ := read_idle_of_magic env k fmt hempty h.header
  obtain ⟨s', hrun, hw'⟩ := hw.reads le_rfl hgood
  obtain ⟨s'', hend, hcommit⟩ := hw'.read_of_end rfl
  have hlt := recordCount_lt (env.memAt mh k) (env.entryAt mh k)
  refine ⟨recordCount (env.memAt mh k) (env.entryAt mh k) + 1, by omega, s'', env.places mh k _, ?_, hcommit,
    places_nodup hgood, fun j hj => reads_header hw hread (by omega) (hgood.mono (by omega))⟩
  rw [reads_succ_congr hread, reads_add, hrun, Option.bind_some, reads_succ hend, reads]
  simp

/-- A run that gets past the chunk does not end before it, and delivers nothing twice. -/
theorem GetsPast.prefix_nodup (h : GetsPast env fmt k) {n : Nat}
    (hbefore : ∀ j ≤ n, ∀ r, reads env j (ReaderState.idle mh fmt k) = some r → r.1.header = mh) :
    ∃ r, reads env (n + 1) (ReaderState.idle mh fmt k) = some r ∧ r.2.Nodup := by
  obtain ⟨n', -, s, places, hrun, hafter, hnodup, -⟩ := h
  have hlt : n + 1 ≤ n' := Nat.lt_of_not_le fun hle =>
    xmShmEntryPosUpdate_ne mh ((hbefore n' hle _ hrun).symm.trans hafter)
  obtain ⟨b, rfl⟩ := Nat.exists_eq_add_of_le hlt
  rw [reads_add] at hrun
  obtain ⟨r, hr, hrest⟩ := Option.bind_eq_some_iff.mp hrun
  obtain ⟨q, -, hq⟩ := Option.map_eq_some_iff.mp hrest
  obtain ⟨-, rfl⟩ := Prod.mk.inj hq
  exact ⟨r, hr, (List.nodup_append.mp hnodup).1⟩

/-- A chunk on which the calls stay is not got past. -/
theorem not_getsPast_of_stuck
    (h : ∀ n r, reads env n (ReaderState.idle mh fmt k) = some r → r.1.header = mh) : ¬ GetsPast env fmt k := by
  rintro ⟨n, -, s, places, hrun, hafter, -⟩
  exact xmShmEntryPosUpdate_ne mh ((h n _ hrun).symm.trans hafter)

theorem GetsPast.header (h : GetsPast env fmt k) (hempty : xmShmEmpty mh = false) :
    ofBE (file.read (readOffset mh) 4) = FIMAGIC := by
  by_contra hmagic
  exact not_getsPast_of_stuck (reads_stuck hempty fun h => absurd h hmagic) h

theorem GetsPast.first (h : GetsPast env fmt k) (hempty : xmShmEmpty mh = false)
    (hcount : 0 < recordCount (env.memAt mh k) (env.entryAt mh k)) :
    RecordMagic (env.memAt mh k) (env.entryAt mh k) 0 := by
  by_contra hmagic
  rw [recordCount_eq] at hcount
  exact not_getsPast_of_stuck (reads_stuck hempty fun _ => ⟨hcount, mt recordMagic_zero_iff.mpr hmagic⟩) h

/-- A record without magic behind others would have the first one delivered again. -/
theorem GetsPast.magic (h : GetsPast env fmt k) (hempty : xmShmEmpty mh = false) {i : Nat}
    (hi : i < recordCount (env.memAt mh k) (env.entryAt mh k)) (hgood : env.GoodUpTo mh k i) :
    RecordMagic (env.memAt mh k) (env.entryAt mh k) i := by
  by_contra hmagic
  have hheader := h.header hempty
  have hpos : 0 < i := Nat.pos_of_ne_zero fun hzero => by
    subst hzero
    exact hmagic (h.first hempty hi)
  obtain ⟨s, hw, hread⟩ := read_idle_of_magic env k fmt hempty (headerMagic_iff.mpr hheader)
  obtain ⟨s', hrun, hw'⟩ := hw.reads hi.le hgood
  obtain ⟨fmt', hstop⟩ := hw'.read_of_not_magic hi hmagic
  have hagain : reads env (i + 1) (ReaderState.idle mh fmt k) =
      some (ReaderState.idle mh fmt' (k + 1), env.places mh k i) := by
    rw [reads_succ_congr hread, reads_add, hrun, Option.bind_some, reads_succ hstop, reads]
    simp
  have hbefore : ∀ j ≤ i + 1, ∀ r, reads env j (ReaderState.idle mh fmt k) = some r → r.1.header = mh := by
    intro j hj r hr
    obtain rfl | hj : j = i + 1 ∨ j ≤ i := by omega
    · rw [hagain] at hr
      obtain rfl := Option.some.inj hr
      rfl
    · exact reads_header hw hread (by omega) (hgood.mono hj) r hr
  obtain ⟨r, hr, hnodup⟩ := h.prefix_nodup hbefore
  -- the chunk is mapped again, and the call delivers its first record or ends the process
  obtain ⟨s₁, hw₁, hread₁⟩ := read_idle_of_magic env (k + 1) fmt' hempty (headerMagic_iff.mpr hheader)
  have hcount : 0 < recordCount (env.memAt mh (k + 1)) (env.entryAt mh (k + 1)) := by
    have hsame : recordCount (env.memAt mh (k + 1)) (env.entryAt mh (k + 1)) =
        recordCount (env.memAt mh k) (env.entryAt mh k) := recordCount_eq.trans recordCount_eq.symm
    omega
  obtain ⟨hdelivers, hends⟩ := hw₁.read_of_magic hcount
    (recordMagic_zero_iff.mpr (recordMagic_zero_iff.mp (hgood 0 hpos).1))
  rw [reads_add (i + 1) 1, hagain, Option.bind_some] at hr
  by_cases hcopied : env.CopiedAt mh (k + 1) 0
  · obtain ⟨s₂, hfirst, -⟩ := hdelivers hcopied
    rw [reads_succ (hread₁.trans hfirst), reads] at hr
    obtain rfl := Option.some.inj hr
    have hdisjoint := (List.nodup_append.mp hnodup).2.2
    refine hdisjoint _ (List.mem_map.mpr ⟨0, List.mem_range.mpr hpos, rfl⟩) _ (List.mem_singleton.mpr rfl) ?_
    rw [relative_recordPlace_zero (header_fits env mh k), relative_recordPlace_zero (header_fits env mh (k + 1))]
  · rw [reads_succ_of_none (hread₁.trans (hends hcopied))] at hr
    cases hr

/-- A record that cannot be copied would end the process. -/
theorem GetsPast.copied (h : GetsPast env fmt k) (hempty : xmShmEmpty mh = false) {i : Nat}
    (hi : i < recordCount (env.memAt mh k) (env.entryAt mh k)) (hgood : env.GoodUpTo mh k i)
    (hmagic : RecordMagic (env.memAt mh k) (env.entryAt mh k) i) : env.CopiedAt mh k i := by
  by_contra hcopied
  obtain ⟨s, hw, hread⟩ := read_idle_of_magic env k fmt hempty (headerMagic_iff.mpr (h.header hempty))
  obtain ⟨s', hrun, hw'⟩ := hw.reads hi.le hgood
  obtain ⟨r, hr, -⟩ := h.prefix_nodup fun j hj => reads_header hw hread (by omega) (hgood.mono hj)
  rw [reads_succ_congr hread, reads_add, hrun, Option.bind_some,
    reads_succ_of_none ((hw'.read_of_magic hi hmagic).2 hcopied)] at hr
  cases hr

theorem GetsPast.goodUpTo (h : GetsPast env fmt k) (hempty : xmShmEmpty mh = false) {n : Nat}
    (hn : n ≤ recordCount (env.memAt mh k) (env.entryAt mh k)) : env.GoodUpTo mh k n := by
  induction n with
  | zero => exact fun j hj => absurd hj (Nat.not_lt_zero j)
  | succ n ih =>
    intro j hj
    have hgood := ih (by omega)
    rcases Nat.lt_or_eq_of_le (Nat.le_of_lt_succ hj) with hj | rfl
    · exact hgood j hj
    · have hmagic := h.magic hempty hn hgood
      exact ⟨hmagic, h.copied hempty hn hgood hmagic⟩

end

/-- The reader gets past a committed entry of any content exactly when its header and every record that the
header announces have their magic and every record can be copied. -/
theorem read_getsPast_iff {file : Mem} {mh : XmShmHeader} (env : ReaderEnv file mh) (fmt : XmShmReader) (k : Nat)
    (hempty : xmShmEmpty mh = false) : GetsPast env fmt k ↔ env.Clean k := by
  refine ⟨fun h => ?_, GetsPast.of_clean hempty⟩
  have hgood := h.goodUpTo hempty le_rfl
  exact ⟨headerMagic_iff.mpr (h.header hempty), fun i hi => (hgood i hi).1, fun i hi => (hgood i hi).2⟩

/-! ## Two pages -/

/-- One committed entry. -/
def oneEntry : XmShmHeader := ⟨4096, 1, 4096, 1, 0, 0⟩

def noReader : XmShmReader := ⟨⟨⟨0, 0, 0⟩, ⟨0, 0, 0⟩, 0, 0, 0, 0, 0⟩, ⟨false, 0⟩⟩

/-- The entry is mapped at the second page, and nothing else can be read. -/
def pageEnv (file : Mem) : ReaderEnv file oneEntry where
  addressGet _ _ := 4096
  mem _ offset := fun a => file (offset + (a - 4096))
  readable _ _ := fun a => decide (4096 ≤ a) && decide (a < 8192)
  cap := 65536
  page_le := by decide
  cap_lt := by decide
  finish_le _ _ := by decide
  shows _ _ _ _ := by rw [Nat.add_sub_cancel_left]
  readable_entry _ _ i hi := by
    have hsize : oneEntry.shmEntrySize = 4096 := rfl
    simp only [Bool.and_eq_true, decide_eq_true_eq]
    omega

/-- A chunk of two records. The data of the second one is longer than `dataBuffer` and than what is left. -/
def twoRecords : Mem := fun i =>
  ([0, 0, 0xFF, 0xFA, 0, 0, 0, 1, 0, 0, 0, 0, 0, 0, 0, 2, 0, 0, 0, 43,
    0, 0, 0xFF, 0xFB, 0, 0, 0, 22, 1, 0, 0, 0, 0, 0, 0, 0, 0, 0, 0, 0, 1, 7,
    0, 0, 0xFF, 0xFB, 0, 0, 0, 22, 1, 0, 0, 0, 0, 0, 0, 0, 0, 0, 2, 0, 0, 9]).getD (i - 4096) 0

theorem twoRecords_count :
    recordCount ((pageEnv twoRecords).memAt oneEntry 0) ((pageEnv twoRecords).entryAt oneEntry 0) = 2 := by
  decide +kernel

theorem read_getsPast_iff_two : GetsPast (pageEnv twoRecords) noReader 0 := by
  refine (read_getsPast_iff (pageEnv twoRecords) noReader 0 (by decide)).mpr ⟨by decide +kernel, ?_, ?_⟩
  · rw [twoRecords_count]
    simp only [RecordMagic]
    decide +kernel
  · rw [twoRecords_count]
    intro k hk
    obtain rfl | rfl : k = 0 ∨ k = 1 := by omega
    · exact ReaderEnv.copiedAt_of_inside (by decide +kernel) (by decide +kernel)
    · have hdata : recordData ((pageEnv twoRecords).memAt oneEntry 0) ((pageEnv twoRecords).entryAt oneEntry 0) 1 =
          (4159, 131072) := by decide +kernel
      rw [RecordCopied, hdata]
      exact ⟨by decide, fun hle => absurd hle (by decide)⟩

/-- A record whose length is 2^64 - 1 has its magic, and the copy of its data ends the process. -/
example : (reads (pageEnv Ptr.overlongPage) 1 (ReaderState.idle oneEntry noReader 0)).isNone := by
  decide +kernel

/-- A header of zeros has no magic, and the entry is never committed. -/
theorem read_never_past : ¬ GetsPast (pageEnv fun _ => 0) noReader 0 := fun h =>
  absurd (h.header (by decide)) (by decide)

end Xmap.Api
