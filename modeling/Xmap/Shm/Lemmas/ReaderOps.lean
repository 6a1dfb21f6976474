import Xmap.Shm.Lemmas.Refines

/-!
# The reader refines the reading of chunks

Each operation of the reader takes the oldest chunk, delivers its next record, sees its end or releases
it.
-/

namespace Xmap.Shm

open Xmap.Lib

variable {conf : ShmConf} {s : Sys} {a : ChunkStream ShmRecord}

theorem ShmConf.headerAt_release {n len : Nat} (hlen : len + 1 ≤ conf.count) :
    xmShmEntryPosUpdate (conf.headerAt n (len + 1)) false = conf.headerAt (n + 1) len := by
  have := conf.count_lt
  have hcur : (len + 1 + (2 ^ 64 - 1)) % 2 ^ 64 = len := by omega
  have hread : (slot conf.count n 0 + 1) % conf.count = slot conf.count (n + 1) 0 := by
    rw [slot, slot, Nat.mod_add_mod, Nat.add_zero, Nat.add_zero]
  have hwrite : slot conf.count n (len + 1) = slot conf.count (n + 1) len := by
    rw [slot, slot, Nat.add_assoc, Nat.add_comm 1 len]
  simp only [xmShmEntryPosUpdate, XmShmHeader.stepPos, addCount, ShmConf.headerAt, if_false,
    Bool.false_eq_true, hcur, hwrite]
  rw [show conf.header.shmEntriesCount = conf.count from rfl, hread]

theorem ShmConf.get_headerAt_read {n len : Nat} :
    xmShmEntryGet (conf.headerAt n len) false =
      if len = 0 then none
      else some ⟨slot conf.count n 0, conf.addr (slot conf.count n 0),
        conf.addr (slot conf.count n 0) + conf.size⟩ := by
  have hempty : xmShmEmpty (conf.headerAt n len) = decide (len = 0) := rfl
  by_cases h : len = 0
  · rw [if_pos h, xmShmEntryGet, shmEntryCanGet, hempty, decide_eq_true h]
    rfl
  · simp only [xmShmEntryGet, shmEntryCanGet, hempty, h, decide_false, Bool.and_false,
      Bool.false_and, if_true, if_false, Bool.false_eq_true]
    rfl

section
variable {c : List ShmRecord} {queue : List (List ShmRecord)}

theorem Refines.head (h : Refines conf s a) (hq : a.queue = c :: queue) :
    Stored conf s.shared.mem (slot conf.count a.released.length 0) c :=
  h.stored 0 c (by rw [hq]; rfl)

theorem Refines.of_reader (h : Refines conf s a) {rd : XmShmReader} {pc : ReaderPc}
    {b : ChunkStream ShmRecord} (hrel : b.released = a.released) (hq : b.queue = a.queue)
    (hcur : b.current = a.current)
    (hr : ReaderAt conf (slot conf.count a.released.length 0) rd a.queue pc b.cursor) :
    Refines conf { s with reader := rd, pc := pc } b := by
  obtain ⟨released, queue, current, cursor, fits⟩ := b
  cases hrel
  cases hq
  cases hcur
  exact ⟨h.header, h.le_count, h.room, h.entrySize, h.stored, h.writer, hr⟩

theorem Refines.read_nil (h : Refines conf s a) (hq : a.queue = []) :
    Refines conf (readOp s).1 (a.read).1 ∧ (readOp s).2 = (a.read).2 := by
  have hidle : a.cursor = .idle := by
    have hf := a.fits
    cases hr : a.cursor with
    | idle => rfl
    | reading k => rw [hr, hq] at hf; obtain ⟨c, hc, _⟩ := hf; cases hc
    | finished => rw [hr, hq] at hf; exact absurd rfl hf
  have hpc := h.reader
  rw [hidle] at hpc
  have hget : xmShmEntryGet s.shared.header false = none := by
    rw [h.header, ShmConf.get_headerAt_read, hq]
    rfl
  have hread : readOp s = ({ s with
      reader := { s.reader with shmIter := ⟨false, 0⟩ }, pc := .prepare }, none) := by
    rw [readOp, show s.pc = .prepare from hpc]
    simp only [xmShmEntryIteratorPrefare, hget]
    rfl
  rw [hread, ChunkStream.read_of_nil hq]
  refine ⟨h.of_reader rfl rfl rfl ?_, rfl⟩
  rw [hidle]
  rfl

theorem Refines.read_idle (h : Refines conf s a) (hq : a.queue = c :: queue)
    (hr : a.cursor = .idle) :
    Refines conf (readOp s).1 (a.read).1 ∧ (readOp s).2 = (a.read).2 := by
  have hs := h.head hq
  obtain ⟨h₁, h₂, h₃, h₄, h₅⟩ := ChunkStream.read_idle hq hr
  have hpc := h.reader
  rw [hr] at hpc
  generalize hi : slot conf.count a.released.length 0 = i at hs
  have hget : xmShmEntryGet s.shared.header false =
      some ⟨i, conf.addr i, conf.addr i + conf.size⟩ := by
    rw [h.header, ShmConf.get_headerAt_read, hq, hi]
    rfl
  have hle := hs.le_size
  have hsize := conf.size_le
  have hnum := length_le_encChunk c
  obtain ⟨hhead, _⟩ := Mem.holds_append.mp hs.holds
  obtain ⟨header, hread, hbf, hn, _⟩ := shmEntryHeaderRead_eq
    { s.reader.curHeader with
      shmEntry := ⟨i, conf.addr i, conf.addr i + conf.size⟩
      bfmt := xmBfInit (conf.addr i) (conf.addr i + conf.size) }
    (by omega) (by omega) hhead
    (by show conf.addr i + 20 ≤ conf.addr i + conf.size; omega)
  have hop : readOp s = ({ s with
      reader := { curHeader := header, shmIter := ⟨true, 0⟩ }, pc := .next }, none) := by
    rw [readOp, show s.pc = .prepare from hpc]
    simp only [xmShmEntryIteratorPrefare, hget, hread]
    rfl
  rw [hop, h₅]
  refine ⟨h.of_reader h₁ h₂ h₃ ?_, rfl⟩
  rw [h₄, hi, hq]
  refine ⟨rfl, rfl, rfl, hn, ?_⟩
  rw [hbf, List.take_zero]
  rfl

theorem Refines.read_record (h : Refines conf s a) (hq : a.queue = c :: queue) {k : Nat}
    (hr : a.cursor = .reading k) (hk : k < c.length) :
    Refines conf (readOp s).1 (a.read).1 ∧ (readOp s).2 = (a.read).2 := by
  have hs := h.head hq
  obtain ⟨h₁, h₂, h₃, h₄, h₅⟩ := ChunkStream.read_record hq hr hk
  have hpc := h.reader
  rw [hr, hq] at hpc
  generalize hi : slot conf.count a.released.length 0 = i at hs hpc
  obtain ⟨hpc, hrd⟩ := hpc
  simp only [List.headD_cons] at hrd
  have htake : c.take (k + 1) = c.take k ++ [c.get ⟨k, hk⟩] := List.take_succ_eq_append_getElem hk
  generalize c.get ⟨k, hk⟩ = r at htake h₅
  have henc : encChunk c = encChunk (c.take k) ++ encRecord r ++ encChunk (c.drop (k + 1)) := by
    refine (congrArg encChunk (List.take_append_drop (k + 1) c).symm).trans ?_
    rw [encChunk_append, htake, encChunk_append, encChunk_singleton]
  have hlen := congrArg List.length henc
  simp only [List.length_append, length_encRecord] at hlen
  have hle := hs.le_size
  have hsize := conf.size_le
  have hnum := length_le_encChunk c
  have hholds := hs.holds
  rw [henc, Mem.holds_append, Mem.holds_append, Mem.holds_append, length_encHeader] at hholds
  obtain ⟨_, ⟨_, hrec⟩, _⟩ := hholds
  have hbf := hrd.bfmt
  obtain ⟨record, hread, hrecord⟩ := recordRead_eq (m := s.shared.mem) s.reader (r := r)
    (by omega) (by rw [hbf]; rw [Nat.add_assoc] at hrec; exact hrec)
    (by
      rw [hbf]
      show conf.addr i + (20 + (encChunk (c.take k)).length) + (21 + r.data.length) ≤
        conf.addr i + conf.size
      omega)
  have hnext : hasNext s.reader := ⟨hrd.hasHeader, by rw [hrd.entriesCount, hrd.entriesNumber]; exact hk⟩
  have hcount : (k + 1) % 2 ^ 32 = k + 1 := Nat.mod_eq_of_lt (by omega)
  have hop : readOp s = ({ s with
      reader := ⟨{ s.reader.curHeader with
          bfmt := xmBfPosUpdate s.reader.curHeader.bfmt (21 + r.data.length) }, ⟨true, k + 1⟩⟩
      pc := .next }, some r) := by
    rw [readOp, hpc]
    simp only [recordNext, if_pos hnext, hread, Option.isSome_some, if_true, Option.map_some,
      hrecord, hrd.hasHeader, hrd.entriesCount, hcount]
  rw [hop, h₅]
  refine ⟨h.of_reader h₁ h₂ h₃ ?_, rfl⟩
  rw [h₄, hi, hq]
  refine ⟨rfl, rfl, rfl, hrd.entriesNumber, ?_⟩
  simp only [List.headD_cons, hbf, xmBfPosUpdate]
  rw [htake, encChunk_append, encChunk_singleton, List.length_append, length_encRecord]
  simp only [Nat.add_assoc]

theorem Refines.read_end (h : Refines conf s a) (hq : a.queue = c :: queue) {k : Nat}
    (hr : a.cursor = .reading k) (hk : ¬ k < c.length) :
    Refines conf (readOp s).1 (a.read).1 ∧ (readOp s).2 = (a.read).2 := by
  obtain ⟨h₁, h₂, h₃, h₄, h₅⟩ := ChunkStream.read_end hq hr hk
  have hpc := h.reader
  rw [hr, hq] at hpc
  obtain ⟨hpc, hrd⟩ := hpc
  simp only [List.headD_cons] at hrd
  have hnext : ¬ hasNext s.reader := by
    rintro ⟨_, hlt⟩
    rw [hrd.entriesCount, hrd.entriesNumber] at hlt
    exact hk hlt
  have hop : readOp s = ({ s with pc := .commit }, none) := by
    rw [readOp, hpc]
    simp only [recordNext, if_neg hnext]
    rfl
  rw [hop, h₅]
  refine ⟨h.of_reader h₁ h₂ h₃ ?_, rfl⟩
  rw [h₄]
  exact ⟨rfl, hrd.hasHeader⟩

/-- The header after the release of the oldest chunk. -/
theorem Refines.release_header (h : Refines conf s a) (hq : a.queue = c :: queue) :
    xmShmEntryPosUpdate s.shared.header false = conf.headerAt (a.released.length + 1) queue.length := by
  have hle := h.le_count
  have hhd := h.header
  rw [hq, List.length_cons] at hle hhd
  rw [hhd, ShmConf.headerAt_release hle]

/-- The oldest chunk is released, and the reader starts again. -/
theorem Refines.release (h : Refines conf s a) (hq : a.queue = c :: queue) {rd : XmShmReader}
    {b : ChunkStream ShmRecord} (hrel : b.released = a.released ++ [c]) (hqueue : b.queue = queue)
    (hcur : b.current = a.current) (hr : b.cursor = .idle) :
    Refines conf { s with
      shared := { s.shared with header := conf.headerAt (a.released.length + 1) queue.length }
      reader := rd
      pc := .prepare } b := by
  have hle := h.le_count
  have hroom := h.room
  rw [hq, List.length_cons] at hle hroom
  have hslot : ∀ j, slot conf.count (a.released.length + 1) j =
      slot conf.count a.released.length (j + 1) := by
    intro j
    rw [slot, slot, Nat.add_assoc, Nat.add_comm 1 j]
  refine ⟨?_, ?_, ?_, h.entrySize, ?_, ?_, ?_⟩
  · rw [hrel, hqueue, List.length_append]
    rfl
  · rw [hqueue]
    omega
  · rw [hqueue, hcur]
    exact fun hc => by have := hroom hc; omega
  · intro j d hj
    rw [hqueue] at hj
    rw [hrel, List.length_append, List.length_singleton, hslot]
    exact h.stored (j + 1) d (by rw [hq]; exact hj)
  · rw [hrel, hqueue, hcur, List.length_append, List.length_singleton, hslot]
    have hw := h.writer
    rwa [hq] at hw
  · rw [hr]
    rfl

theorem Refines.read_finished (h : Refines conf s a) (hq : a.queue = c :: queue)
    (hr : a.cursor = .finished) :
    Refines conf (readOp s).1 (a.read).1 ∧ (readOp s).2 = (a.read).2 := by
  obtain ⟨h₁, h₂, h₃, h₄, h₅⟩ := ChunkStream.read_finished hq hr
  have hpc := h.reader
  rw [hr] at hpc
  obtain ⟨hpc, hhead⟩ := hpc
  have hop : readOp s = ({ s with
      shared := { s.shared with header := conf.headerAt (a.released.length + 1) queue.length }
      reader := ⟨{ s.reader.curHeader with shmEntry := ⟨0, 0, 0⟩ }, ⟨false, 0⟩⟩
      pc := .prepare }, none) := by
    rw [readOp, hpc]
    simp only [xmShmEntryIteratorCommit, hhead, if_true, xmShmEntryCommit, h.release_header hq]
  rw [hop, h₅]
  exact ⟨h.release hq h₁ h₂ h₃ h₄, rfl⟩

/-- Every operation of the reader is a step of the reading of chunks. -/
theorem Refines.read (h : Refines conf s a) :
    Refines conf (readOp s).1 (a.read).1 ∧ (readOp s).2 = (a.read).2 := by
  cases hq : a.queue with
  | nil => exact h.read_nil hq
  | cons c queue =>
    cases hr : a.cursor with
    | idle => exact h.read_idle hq hr
    | reading k =>
      by_cases hk : k < c.length
      · exact h.read_record hq hr hk
      · exact h.read_end hq hr hk
    | finished => exact h.read_finished hq hr

end

end Xmap.Shm
