import Xmap.Shm.Count
import Xmap.Shm.Lemmas.Refines

/-!
# Theorems on the count of entries in use

While no process loads the count between the load and the store of the other, the count is the number of
entries committed by the writer but not by the reader.
-/

namespace Xmap.Shm

/-- The step does not load the count between the load and the store of the other process. -/
def CountSys.Alone (s : CountSys) (isWrite : Bool) : Prop :=
  (s.party isWrite).pc = .stepped → (s.party !isWrite).pc.isLoaded = false

/-- Every step of the schedule is so. -/
def CountSys.RunsAlone : CountSys → List Bool → Prop
  | _, [] => True
  | s, b :: schedule => s.Alone b ∧ (s.step b).RunsAlone schedule

/-- With no process inside an update the count and the answers of full and empty are right. -/
def CountSys.InSync (s : CountSys) : Prop :=
  s.writer.pc.isInside = false → s.reader.pc.isInside = false →
    s.writer.commits = s.reader.commits + s.header.shmEntriesCountCur ∧
    s.header.shmEntriesCountCur ≤ s.header.shmEntriesCount ∧
    (xmShmEmpty s.header = true ↔ s.writer.commits = s.reader.commits) ∧
    (xmShmFull s.header = true ↔
      s.writer.commits = s.reader.commits + s.header.shmEntriesCount)

/-- A process that has an entry commits it within the bounds of the count, and a loaded count is the
one in memory. -/
structure CountSys.Inv (s : CountSys) : Prop where
  count_lt : s.header.shmEntriesCount < 2 ^ 64
  cur_le : s.header.shmEntriesCountCur ≤ s.header.shmEntriesCount
  commits : s.writer.commits = s.reader.commits + s.header.shmEntriesCountCur
  writer_room : s.writer.pc ≠ .out → s.header.shmEntriesCountCur < s.header.shmEntriesCount
  reader_room : s.reader.pc ≠ .out → 0 < s.header.shmEntriesCountCur
  writer_loaded : ∀ v, s.writer.pc = .loaded v → v = s.header.shmEntriesCountCur
  reader_loaded : ∀ v, s.reader.pc = .loaded v → v = s.header.shmEntriesCountCur
  one_loaded : ¬ (s.writer.pc.isLoaded = true ∧ s.reader.pc.isLoaded = true)

section
variable {s : CountSys}

theorem ShmConf.startCount_inv (conf : ShmConf) : conf.startCount.Inv where
  count_lt := conf.count_lt
  cur_le := Nat.zero_le _
  commits := rfl
  writer_room h := absurd rfl h
  reader_room h := absurd rfl h
  writer_loaded := nofun
  reader_loaded := nofun
  one_loaded := nofun

theorem CountSys.Inv.inSync (h : s.Inv) : s.InSync := by
  intro _ _
  have hc := h.commits
  refine ⟨hc, h.cur_le, ?_, ?_⟩
  · rw [xmShmEmpty, decide_eq_true_eq]
    omega
  · rw [xmShmFull, decide_eq_true_eq]
    omega

theorem CountSys.Inv.step_writer (h : s.Inv) (ha : s.Alone true) : (s.step true).Inv := by
  obtain ⟨header, ⟨pc, commits⟩, reader⟩ := s
  cases pc with
  | out =>
    by_cases hget : shmEntryCanGet header true = true
    · have hroom : header.shmEntriesCountCur < header.shmEntriesCount := by
        refine lt_of_le_of_ne h.cur_le fun he => ?_
        simp [shmEntryCanGet, xmShmFull, he] at hget
      simp only [step, party, setParty, if_true, hget]
      exact ⟨h.count_lt, h.cur_le, h.commits, fun _ => hroom, h.reader_room, nofun, h.reader_loaded,
        nofun⟩
    · simp only [step, party, if_true, if_neg hget]
      exact h
  | taken =>
    have hroom := h.writer_room nofun
    exact ⟨h.count_lt, h.cur_le, h.commits, fun _ => hroom, h.reader_room, nofun, h.reader_loaded,
      nofun⟩
  | stepped =>
    have hroom := h.writer_room nofun
    have hother : reader.pc.isLoaded = false := ha rfl
    refine ⟨h.count_lt, h.cur_le, h.commits, fun _ => hroom, h.reader_room, ?_, h.reader_loaded, ?_⟩
    · intro v hv
      cases hv
      rfl
    · rintro ⟨_, hl⟩
      exact absurd (hother.symm.trans hl) nofun
  | loaded v =>
    obtain rfl : v = header.shmEntriesCountCur := h.writer_loaded v rfl
    have hroom := h.writer_room nofun
    have hlt := h.count_lt
    have hc := h.commits
    simp only at hroom hlt hc
    have hadd : addCount true header.shmEntriesCountCur = header.shmEntriesCountCur + 1 := by
      simp only [addCount, if_true]
      omega
    have hother : ∀ w, reader.pc ≠ .loaded w := by
      intro w hw
      refine h.one_loaded ⟨rfl, ?_⟩
      show reader.pc.isLoaded = true
      rw [hw]
      rfl
    simp only [step, party, setParty, if_true, hadd]
    refine ⟨hlt, hroom, ?_, fun hn => absurd rfl hn, fun _ => Nat.succ_pos _, nofun, ?_, nofun⟩
    · simp only
      omega
    · exact fun w hw => absurd hw (hother w)

theorem CountSys.Inv.step_reader (h : s.Inv) (ha : s.Alone false) : (s.step false).Inv := by
  obtain ⟨header, writer, ⟨pc, commits⟩⟩ := s
  cases pc with
  | out =>
    by_cases hget : shmEntryCanGet header false = true
    · have hroom : 0 < header.shmEntriesCountCur := by
        refine Nat.pos_of_ne_zero fun he => ?_
        simp [shmEntryCanGet, xmShmEmpty, he] at hget
      simp only [step, party, setParty, if_false, Bool.false_eq_true, hget, if_true]
      exact ⟨h.count_lt, h.cur_le, h.commits, h.writer_room, fun _ => hroom, h.writer_loaded, nofun,
        nofun⟩
    · simp only [step, party, Bool.false_eq_true, if_false, if_neg hget]
      exact h
  | taken =>
    have hroom := h.reader_room nofun
    exact ⟨h.count_lt, h.cur_le, h.commits, h.writer_room, fun _ => hroom, h.writer_loaded, nofun,
      nofun⟩
  | stepped =>
    have hroom := h.reader_room nofun
    have hother : writer.pc.isLoaded = false := ha rfl
    refine ⟨h.count_lt, h.cur_le, h.commits, h.writer_room, fun _ => hroom, h.writer_loaded, ?_, ?_⟩
    · intro v hv
      cases hv
      rfl
    · rintro ⟨hl, _⟩
      exact absurd (hother.symm.trans hl) nofun
  | loaded v =>
    obtain rfl : v = header.shmEntriesCountCur := h.reader_loaded v rfl
    have hroom := h.reader_room nofun
    have hlt := h.count_lt
    have hle := h.cur_le
    have hc := h.commits
    have hadd : addCount false header.shmEntriesCountCur = header.shmEntriesCountCur - 1 := by
      simp only at hroom hlt hle
      simp only [addCount, Bool.false_eq_true, if_false]
      omega
    have hother : ∀ w, writer.pc ≠ .loaded w := by
      intro w hw
      refine h.one_loaded ⟨?_, rfl⟩
      show writer.pc.isLoaded = true
      rw [hw]
      rfl
    simp only [step, party, setParty, Bool.false_eq_true, if_false, hadd]
    simp only at hroom hle hc
    refine ⟨hlt, ?_, ?_, fun _ => ?_, fun hn => absurd rfl hn, ?_, nofun, nofun⟩
    · simp only
      omega
    · simp only
      omega
    · simp only
      omega
    · exact fun w hw => absurd hw (hother w)

theorem CountSys.Inv.run (h : s.Inv) {schedule : List Bool} (ha : s.RunsAlone schedule) :
    (s.run schedule).Inv := by
  induction schedule generalizing s with
  | nil => exact h
  | cons b schedule ih =>
    obtain ⟨hb, hrest⟩ := ha
    cases b with
    | false => exact ih (h.step_reader hb) hrest
    | true => exact ih (h.step_writer hb) hrest

/-- While no process loads the count within the update of the other, it is right whenever none is inside
an update. -/
theorem xmShmEntryPosUpdate_in_sync (conf : ShmConf) {schedule : List Bool}
    (ha : conf.startCount.RunsAlone schedule) : (conf.startCount.run schedule).InSync :=
  ((conf.startCount_inv).run ha).inSync

end

/-- A commit of one process with no step of the other between is the whole update. -/
theorem CountSys.run_commit (s : CountSys) (isWrite : Bool)
    (h : (s.party isWrite).pc = .taken) :
    (s.run [isWrite, isWrite, isWrite]).header = xmShmEntryPosUpdate s.header isWrite := by
  obtain ⟨header, ⟨wpc, wcommits⟩, ⟨rpc, rcommits⟩⟩ := s
  cases isWrite with
  | false =>
    obtain rfl : rpc = .taken := h
    rfl
  | true =>
    obtain rfl : wpc = .taken := h
    rfl

/-! ## A lost update -/

/-- A file of a header page and two entries. -/
def twoConf : ShmConf where
  pageShift := 12
  fsize := 12288
  fentrySize := 4096
  page_le := page_shift_le
  fsize_lt := by decide
  header_le := page_holds_header
  entry_lt := page_size_lt
  entries_pos := by decide

/-- The writer commits an entry, then the reader takes and commits it. -/
theorem xmShmEntryPosUpdate_in_sync_turns :
    (twoConf.startCount.run [true, true, true, true, false, false, false, false]).InSync :=
  xmShmEntryPosUpdate_in_sync twoConf (by
    simp only [CountSys.RunsAlone, CountSys.Alone, and_true]
    decide +kernel)

/-- The second commit of the writer and the first of the reader load the same count: the ring seems empty
with an entry in it. -/
theorem xmShmEntryPosUpdate_lost_update :
    ¬ (twoConf.startCount.run
      [true, true, true, true, true, true, false, false, true, false, true, false]).InSync := by
  intro h
  obtain ⟨hc, _⟩ := h (by decide +kernel) (by decide +kernel)
  exact absurd hc (by decide +kernel)

end Xmap.Shm
