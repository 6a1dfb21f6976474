import Xmap.Lib.Ring
import Xmap.Shm.Lemmas.Refines
import Xmap.Shm.Ring

/-!
# Theorems on the ring

The positions and the counter stay in step whatever the two sides do, and the writer is never given a
committed entry. The entries are where they belong when the header fits the shared size: the size that is
left for them is a difference of words.
-/

namespace Xmap.Shm

open Xmap.Lib

/-- An entry on page borders, behind the header and its private data, within the shared size, and apart from
the other entries. -/
structure Placed (conf : RingConf) (mh : XmShmHeader) (i : Nat) : Prop where
  start_aligned : 2 ^ conf.pageShift ∣ (shmEntryInit mh i).start
  finish_aligned : 2 ^ conf.pageShift ∣ (shmEntryInit mh i).finish
  behind_header : shmHeaderSize + conf.privDataSize ≤ (shmEntryInit mh i).start
  within_size : (shmEntryInit mh i).finish ≤ conf.size
  apart : ∀ j < mh.shmEntriesCount, j ≠ i → (shmEntryInit mh i).finish ≤ (shmEntryInit mh j).start ∨
    (shmEntryInit mh j).finish ≤ (shmEntryInit mh i).start

structure RingOk (conf : RingConf) (s : RingSys) : Prop where
  cur_le : s.header.shmEntriesCountCur ≤ s.header.shmEntriesCount
  write_pos : s.header.shmWriteEntryPos =
    (s.header.shmReadEntryPos + s.header.shmEntriesCountCur) % s.header.shmEntriesCount
  held : ∀ b e, s.held b = some e →
    e.entryIndex < s.header.shmEntriesCount ∧ e = shmEntryInit s.header e.entryIndex
  writer_free : ∀ e, s.writer = some e → e.entryIndex ∉ s.committed
  reader_committed : ∀ e, s.reader = some e → e.entryIndex ∈ s.committed
  placed : ∀ i < s.header.shmEntriesCount, Placed conf s.header i

/-! ## The invariant -/

/-- The committed entries are those from the reader's position to the writer's, and a side holds the one at
its own position. -/
structure RingInv (conf : RingConf) (s : RingSys) : Prop where
  entries_start : s.header.shmEntriesStart = conf.header.shmEntriesStart
  entries_count : s.header.shmEntriesCount = conf.header.shmEntriesCount
  entry_size : s.header.shmEntrySize = conf.entrySize
  read_lt : s.header.shmReadEntryPos < conf.header.shmEntriesCount
  cur_le : s.header.shmEntriesCountCur ≤ conf.header.shmEntriesCount
  write_pos : s.header.shmWriteEntryPos =
    slot conf.header.shmEntriesCount s.header.shmReadEntryPos s.header.shmEntriesCountCur
  committed : s.committed =
    slots conf.header.shmEntriesCount s.header.shmReadEntryPos s.header.shmEntriesCountCur
  writer : ∀ e, s.writer = some e → e = shmEntryInit s.header s.header.shmWriteEntryPos ∧
    s.header.shmEntriesCountCur < conf.header.shmEntriesCount
  reader : ∀ e, s.reader = some e → e = shmEntryInit s.header s.header.shmReadEntryPos ∧
    0 < s.header.shmEntriesCountCur

section
variable {conf : RingConf} {s t : RingSys} {e : XmShmEntry} {mh : XmShmHeader} {i : Nat}

theorem RingConf.count_lt (conf : RingConf) : conf.header.shmEntriesCount < 2 ^ 64 :=
  (Nat.div_le_self _ _).trans_lt (Nat.mod_lt _ (by decide))

theorem RingConf.start_inv (conf : RingConf) : RingInv conf conf.start where
  entries_start := rfl
  entries_count := rfl
  entry_size := rfl
  read_lt := conf.entries_pos
  cur_le := Nat.zero_le _
  write_pos := (Nat.zero_mod _).symm
  committed := rfl
  writer _ h := absurd h.symm (Option.some_ne_none _)
  reader _ h := absurd h.symm (Option.some_ne_none _)

/-! ## Steps -/

/-- The writer gets the entry at its position where the ring is not full. -/
theorem xmShmEntryGet_writer (h : xmShmEntryGet mh true = some e) :
    e = shmEntryInit mh mh.shmWriteEntryPos ∧ mh.shmEntriesCountCur ≠ mh.shmEntriesCount := by
  rw [xmShmEntryGet, shmEntryCanGet, xmShmFull, shmEntryIndexGet] at h
  by_cases hfull : mh.shmEntriesCountCur = mh.shmEntriesCount
  · rw [decide_eq_true hfull] at h
    exact absurd h.symm (Option.some_ne_none e)
  · rw [decide_eq_false hfull] at h
    exact ⟨(Option.some.inj h).symm, hfull⟩

/-- The reader gets the entry at its position where the ring is not empty. -/
theorem xmShmEntryGet_reader (h : xmShmEntryGet mh false = some e) :
    e = shmEntryInit mh mh.shmReadEntryPos ∧ mh.shmEntriesCountCur ≠ 0 := by
  rw [xmShmEntryGet, shmEntryCanGet, xmShmEmpty, shmEntryIndexGet] at h
  by_cases hempty : mh.shmEntriesCountCur = 0
  · rw [decide_eq_true hempty] at h
    exact absurd h.symm (Option.some_ne_none e)
  · rw [decide_eq_false hempty] at h
    exact ⟨(Option.some.inj h).symm, hempty⟩

theorem RingInv.get_writer (h : RingInv conf s) (he : xmShmEntryGet s.header true = some e) :
    RingInv conf (s.hold true (some e)) := by
  obtain ⟨rfl, hroom⟩ := xmShmEntryGet_writer he
  have hlt : s.header.shmEntriesCountCur < conf.header.shmEntriesCount :=
    lt_of_le_of_ne h.cur_le (h.entries_count ▸ hroom)
  exact { h with writer := fun e he => ⟨(Option.some.inj he).symm, hlt⟩ }

theorem RingInv.get_reader (h : RingInv conf s) (he : xmShmEntryGet s.header false = some e) :
    RingInv conf (s.hold false (some e)) := by
  obtain ⟨rfl, hne⟩ := xmShmEntryGet_reader he
  exact { h with reader := fun e he => ⟨(Option.some.inj he).symm, Nat.pos_of_ne_zero hne⟩ }

theorem xmShmEntryCommit_writer (h : mh.shmEntriesCountCur + 1 < 2 ^ 64) :
    (xmShmEntryCommit mh true).1 =
      { mh with
        shmWriteEntryPos := (mh.shmWriteEntryPos + 1) % mh.shmEntriesCount
        shmEntriesCountCur := mh.shmEntriesCountCur + 1 } := by
  have hcur : addCount true mh.shmEntriesCountCur = mh.shmEntriesCountCur + 1 := by
    rw [addCount, if_pos rfl, Nat.mod_eq_of_lt h]
  simp only [xmShmEntryCommit, xmShmEntryPosUpdate, XmShmHeader.stepPos, if_true, hcur]

theorem xmShmEntryCommit_reader {k : Nat} (hk : mh.shmEntriesCountCur = k + 1) (h : k < 2 ^ 64) :
    (xmShmEntryCommit mh false).1 =
      { mh with
        shmReadEntryPos := (mh.shmReadEntryPos + 1) % mh.shmEntriesCount
        shmEntriesCountCur := k } := by
  have hcur : addCount false mh.shmEntriesCountCur = k := by
    rw [addCount, if_neg Bool.false_ne_true, hk]
    omega
  simp only [xmShmEntryCommit, xmShmEntryPosUpdate, XmShmHeader.stepPos, Bool.false_eq_true, if_false, hcur]

theorem RingInv.commit_writer (h : RingInv conf s) (he : s.writer = some e) :
    RingInv conf { s.hold true none with
      header := (xmShmEntryCommit s.header true).1
      committed := s.committed ++ [e.entryIndex] } := by
  obtain ⟨rfl, hroom⟩ := h.writer e he
  have hpos : (s.header.shmWriteEntryPos + 1) % s.header.shmEntriesCount =
      slot conf.header.shmEntriesCount s.header.shmReadEntryPos (s.header.shmEntriesCountCur + 1) := by
    rw [h.entries_count, h.write_pos, slot_succ]
  have hcommitted : s.committed ++ [s.header.shmWriteEntryPos] =
      slots conf.header.shmEntriesCount s.header.shmReadEntryPos (s.header.shmEntriesCountCur + 1) := by
    rw [slots_append, ← h.committed, ← h.write_pos]
  rw [xmShmEntryCommit_writer (Nat.lt_of_le_of_lt hroom conf.count_lt)]
  exact {
    entries_start := h.entries_start
    entries_count := h.entries_count
    entry_size := h.entry_size
    read_lt := h.read_lt
    cur_le := hroom
    write_pos := hpos
    committed := hcommitted
    writer := fun e he => absurd he.symm (Option.some_ne_none e)
    reader := fun e he => ⟨(h.reader e he).1, Nat.succ_pos _⟩ }

theorem RingInv.commit_reader (h : RingInv conf s) (he : s.reader = some e) :
    RingInv conf { s.hold false none with
      header := (xmShmEntryCommit s.header false).1
      committed := s.committed.erase e.entryIndex } := by
  obtain ⟨rfl, hpos⟩ := h.reader e he
  obtain ⟨k, hk⟩ : ∃ k, s.header.shmEntriesCountCur = k + 1 := ⟨_, (Nat.sub_add_cancel hpos).symm⟩
  have hle : k + 1 ≤ conf.header.shmEntriesCount := hk ▸ h.cur_le
  have hread : slot conf.header.shmEntriesCount s.header.shmReadEntryPos 0 = s.header.shmReadEntryPos :=
    Nat.mod_eq_of_lt h.read_lt
  have hlt : (s.header.shmReadEntryPos + 1) % s.header.shmEntriesCount < conf.header.shmEntriesCount := by
    rw [h.entries_count]
    exact Nat.mod_lt _ conf.entries_pos
  have hwrite : s.header.shmWriteEntryPos =
      slot conf.header.shmEntriesCount ((s.header.shmReadEntryPos + 1) % s.header.shmEntriesCount) k := by
    rw [h.entries_count, slot_add, ← hk, h.write_pos]
  have hcommitted : s.committed.erase s.header.shmReadEntryPos =
      slots conf.header.shmEntriesCount ((s.header.shmReadEntryPos + 1) % s.header.shmEntriesCount) k := by
    rw [h.committed, hk, slots_cons, hread, List.erase_cons_head, h.entries_count]
  rw [xmShmEntryCommit_reader hk (Nat.lt_of_lt_of_le hle conf.count_lt.le)]
  exact {
    entries_start := h.entries_start
    entries_count := h.entries_count
    entry_size := h.entry_size
    read_lt := hlt
    cur_le := Nat.le_of_lt hle
    write_pos := hwrite
    committed := hcommitted
    writer := fun e he => ⟨(h.writer e he).1, hle⟩
    reader := fun e he => absurd he.symm (Option.some_ne_none e) }

/-- A step of either side keeps the invariant. -/
theorem RingInv.step (h : RingInv conf s) (op : RingOp) (hstep : ringStep s op = some t) :
    RingInv conf t := by
  cases op with
  | get isWrite mapped =>
    rw [ringStep] at hstep
    cases hget : xmShmEntryGet s.header isWrite with
    | none =>
      rw [hget] at hstep
      exact Option.some.inj hstep ▸ h
    | some e =>
      rw [hget] at hstep
      obtain rfl := Option.some.inj hstep
      cases mapped with
      | false => exact h
      | true =>
        cases isWrite with
        | false => exact h.get_reader hget
        | true => exact h.get_writer hget
  | commit isWrite =>
    obtain ⟨e, he, rfl⟩ := Option.map_eq_some_iff.mp hstep
    cases isWrite with
    | false => exact h.commit_reader he
    | true => exact h.commit_writer he

/-! ## Places -/

theorem dvd_xmAlignUp64 (d shift : Nat) : 2 ^ shift ∣ xmAlignUp64 d shift := by
  rw [xmAlignUp64, Nat.shiftLeft_eq]
  exact Nat.dvd_mul_left _ _

/-- A number fits an aligned size exactly when it does so rounded up. -/
theorem xmAlignUp64_le_iff {d shift size : Nat} (hshift : shift < 64) (hsize : size < 2 ^ 64)
    (haligned : 2 ^ shift ∣ size) :
    d ≤ size ↔ d ≤ xmAlignUp64 d shift ∧ xmAlignUp64 d shift ≤ size := by
  refine ⟨fun h => ?_, fun h => h.1.trans h.2⟩
  have hpos : 0 < 2 ^ shift := Nat.two_pow_pos shift
  obtain ⟨k, rfl⟩ := haligned
  -- the last page of a word's range is left free by an aligned size
  have hlast : 2 ^ shift * k + 2 ^ shift ≤ 2 ^ 64 := by
    have hpow : 2 ^ 64 = 2 ^ shift * 2 ^ (64 - shift) := by
      rw [← pow_add]
      exact congrArg _ (by omega)
    have hk : k < 2 ^ (64 - shift) := Nat.lt_of_mul_lt_mul_left (hpow ▸ hsize)
    calc 2 ^ shift * k + 2 ^ shift = 2 ^ shift * (k + 1) := by rw [Nat.mul_succ]
      _ ≤ 2 ^ shift * 2 ^ (64 - shift) := Nat.mul_le_mul_left _ hk
      _ = 2 ^ 64 := hpow.symm
  have hwrap : d + (2 ^ shift - 1) < 2 ^ 64 := by omega
  rw [xmAlignUp64_eq hwrap]
  refine ⟨le_xmAlignUp d shift, ?_⟩
  rw [xmAlignUp, Nat.shiftLeft_eq, Nat.shiftRight_eq_div_pow, Nat.mul_comm (2 ^ shift)]
  refine Nat.mul_le_mul_right _ (Nat.lt_succ_iff.mp ?_)
  rw [Nat.div_lt_iff_lt_mul hpos, Nat.succ_mul, Nat.mul_comm k]
  omega

/-- The entries of a header that fits end within the shared size. -/
theorem RingConf.entries_le (conf : RingConf) (hroom : conf.header.shmEntriesStart ≤ conf.size) :
    conf.header.shmEntriesStart + conf.entrySize * conf.header.shmEntriesCount ≤ conf.size := by
  have hsize := conf.size_lt
  have hcount : conf.header.shmEntriesCount =
      (conf.size + 2 ^ 64 - conf.header.shmEntriesStart) % 2 ^ 64 / conf.entrySize := rfl
  have hsub : (conf.size + 2 ^ 64 - conf.header.shmEntriesStart) % 2 ^ 64 =
      conf.size - conf.header.shmEntriesStart := by omega
  have hmul := Nat.mul_div_le (conf.size - conf.header.shmEntriesStart) conf.entrySize
  rw [hcount, hsub]
  omega

theorem RingInv.placed (h : RingInv conf s)
    (hheader : shmHeaderSize + conf.privDataSize ≤ conf.header.shmEntriesStart)
    (hroom : conf.header.shmEntriesStart ≤ conf.size) (hi : i < s.header.shmEntriesCount) :
    Placed conf s.header i := by
  have hstart (j : Nat) : (shmEntryInit s.header j).start =
      conf.entrySize * j + conf.header.shmEntriesStart := by
    rw [shmEntryInit, xmShmEntryPosOffset, h.entry_size, h.entries_start]
  have hfinish (j : Nat) : (shmEntryInit s.header j).finish =
      conf.entrySize * (j + 1) + conf.header.shmEntriesStart := by
    rw [shmEntryInit, xmShmEntryPosOffset, h.entry_size, h.entries_start, Nat.mul_succ]
    exact Nat.add_right_comm _ _ _
  have haligned : 2 ^ conf.pageShift ∣ conf.header.shmEntriesStart := dvd_xmAlignUp64 _ _
  have hdvd (j : Nat) : 2 ^ conf.pageShift ∣ conf.entrySize * j + conf.header.shmEntriesStart :=
    dvd_add (Dvd.dvd.mul_right conf.entry_aligned j) haligned
  constructor
  · rw [hstart]
    exact hdvd i
  · rw [hfinish]
    exact hdvd (i + 1)
  · rw [hstart]
    exact hheader.trans (Nat.le_add_left _ _)
  · have hall := conf.entries_le hroom
    have hmul := Nat.mul_le_mul_left conf.entrySize (h.entries_count ▸ hi : i < _)
    rw [hfinish]
    exact (Nat.add_le_add_right hmul _).trans (Nat.add_comm _ _ ▸ hall)
  · intro j _ hne
    rw [hstart, hfinish, hstart, hfinish]
    rcases Nat.lt_or_gt_of_ne hne with hlt | hlt
    · exact Or.inr (Nat.add_le_add_right (Nat.mul_le_mul_left _ hlt) _)
    · exact Or.inl (Nat.add_le_add_right (Nat.mul_le_mul_left _ hlt) _)

theorem RingInv.ringOk (h : RingInv conf s)
    (hheader : shmHeaderSize + conf.privDataSize ≤ conf.header.shmEntriesStart)
    (hroom : conf.header.shmEntriesStart ≤ conf.size) : RingOk conf s where
  cur_le := h.entries_count ▸ h.cur_le
  write_pos := by
    rw [h.entries_count]
    exact h.write_pos
  held b e he := by
    rw [h.entries_count]
    cases b with
    | false =>
      obtain ⟨rfl, _⟩ := h.reader e he
      exact ⟨h.read_lt, rfl⟩
    | true =>
      obtain ⟨rfl, _⟩ := h.writer e he
      refine ⟨?_, rfl⟩
      show s.header.shmWriteEntryPos < _
      rw [h.write_pos]
      exact Nat.mod_lt _ conf.entries_pos
  writer_free e he := by
    obtain ⟨rfl, hlt⟩ := h.writer e he
    show s.header.shmWriteEntryPos ∉ _
    rw [h.committed, h.write_pos]
    exact slot_notMem_slots hlt
  reader_committed e he := by
    obtain ⟨rfl, hpos⟩ := h.reader e he
    show s.header.shmReadEntryPos ∈ _
    rw [h.committed]
    exact List.mem_map.mpr ⟨0, List.mem_range.mpr hpos, Nat.mod_eq_of_lt h.read_lt⟩
  placed _ hi := h.placed hheader hroom hi

end

/-- In every order of steps the ring is as it should be exactly when the header and its private data fit
the shared size. -/
theorem xmShmInit_ringOk_iff (conf : RingConf) :
    (∀ ops, ∀ s ∈ states ringStep conf.start ops, RingOk conf s) ↔
      shmHeaderSize + conf.privDataSize ≤ conf.size := by
  rw [xmAlignUp64_le_iff conf.page_lt conf.size_lt conf.size_aligned]
  constructor
  · intro h
    have hok := h [] conf.start self_mem_states
    have hfirst := hok.placed 0 conf.entries_pos
    have hstart : (shmEntryInit conf.start.header 0).start = conf.header.shmEntriesStart :=
      (congrArg (· + _) (Nat.mul_zero _)).trans (Nat.zero_add _)
    have hbehind := hfirst.behind_header
    have hwithin := hfirst.within_size
    have hlt : (shmEntryInit conf.start.header 0).start ≤ (shmEntryInit conf.start.header 0).finish :=
      Nat.le_add_right _ _
    rw [hstart] at hbehind hlt
    exact ⟨hbehind, hlt.trans hwithin⟩
  · rintro ⟨hheader, hroom⟩ ops s hs
    have hinv : ∀ t ∈ states ringStep conf.start ops, RingInv conf t :=
      states_invariant (fun s op t hstep h => RingInv.step h op hstep) conf.start_inv
    exact (hinv s hs).ringOk hheader hroom

/-- A size of 0 on pages of 4096 bytes. -/
def emptyConf : RingConf where
  pageShift := 12
  size := 0
  entrySize := 4096
  privDataSize := 0
  page_lt := by decide
  size_lt := by decide
  entry_lt := by decide
  priv_lt := by decide
  size_aligned := by decide
  entry_aligned := by decide
  entries_pos := by decide

/-- A size of 0 gives nearly 2^52 entries, which lie outside. -/
theorem xmShmInit_empty_size :
    ¬ ∀ ops, ∀ s ∈ states ringStep emptyConf.start ops, RingOk emptyConf s := by
  intro h
  have hok := h [] emptyConf.start self_mem_states
  exact absurd (hok.placed 0 emptyConf.entries_pos).within_size (by decide)

end Xmap.Shm
