import Mathlib.Tactic

/-!
# Streams in chunks

A writer collects records in a chunk and commits it; a reader takes the committed chunks one after
another, delivers the records of each and releases it. What the reader delivers is a prefix of what
the writer accepted, and a reader that keeps going delivers every committed record.
-/

namespace Xmap.Lib

variable {α : Type}

/-- Where the reader stands in the oldest committed chunk. -/
inductive Cursor where
  | idle
  | reading (k : Nat)
  | finished
deriving DecidableEq, Repr

namespace Cursor

def Fits : Cursor → List (List α) → Prop
  | idle, _ => True
  | reading k, queue => ∃ c ∈ queue.head?, k ≤ c.length
  | finished, queue => queue ≠ []

/-- What is delivered of the oldest chunk. -/
def begun : Cursor → List (List α) → List α
  | idle, _ => []
  | reading k, queue => (queue.headD []).take k
  | finished, queue => queue.headD []

/-- The steps made in the oldest chunk: one to take it, one for each record, one to see the end. -/
def steps : Cursor → List (List α) → Nat
  | idle, _ => 0
  | reading k, _ => k + 1
  | finished, queue => (queue.headD []).length + 2

variable {r : Cursor} {queue : List (List α)}

theorem Fits.append (h : r.Fits queue) (more : List (List α)) :
    r.Fits (queue ++ more) ∧ r.begun (queue ++ more) = r.begun queue ∧
      r.steps (queue ++ more) = r.steps queue := by
  cases queue with
  | nil =>
    cases r with
    | idle => exact ⟨trivial, rfl, rfl⟩
    | reading k => obtain ⟨c, hc, _⟩ := h; cases hc
    | finished => exact absurd rfl h
  | cons c queue =>
    cases r with
    | idle => exact ⟨trivial, rfl, rfl⟩
    | reading k => exact ⟨h, rfl, rfl⟩
    | finished => exact ⟨List.cons_ne_nil _ _, rfl, rfl⟩

end Cursor

/-- The chunks released, those committed but not released, the writer's own, and the reader. -/
structure ChunkStream (α : Type) where
  released : List (List α)
  queue : List (List α)
  current : Option (List α)
  cursor : Cursor
  fits : cursor.Fits queue

namespace ChunkStream

def empty : ChunkStream α := ⟨[], [], none, .idle, trivial⟩

/-- The chunks committed so far. -/
def chunks (s : ChunkStream α) : List (List α) := s.released ++ s.queue

def committed (s : ChunkStream α) : List α := s.chunks.flatten

def accepted (s : ChunkStream α) : List α := s.committed ++ s.current.getD []

def delivered (s : ChunkStream α) : List α := s.released.flatten ++ s.cursor.begun s.queue

/-! ## The writer -/

def commit (s : ChunkStream α) : ChunkStream α :=
  { s with queue := s.queue ++ s.current.toList, current := none, fits := (s.fits.append _).1 }

/-- Start a chunk. -/
def create (s : ChunkStream α) : ChunkStream α := { s with current := some [] }

def accept (s : ChunkStream α) (r : α) : ChunkStream α :=
  { s with current := s.current.map (· ++ [r]) }

/-! ## The reader -/

/-- One step of the reader, and the record that it delivers. -/
def read (s : ChunkStream α) : ChunkStream α × Option α :=
  match hq : s.queue with
  | [] => (s, none)
  | c :: queue =>
    match s.cursor with
    | .idle => ({ s with cursor := .reading 0, fits := ⟨c, by simp [hq], Nat.zero_le _⟩ }, none)
    | .reading k =>
      if hk : k < c.length then
        ({ s with cursor := .reading (k + 1), fits := ⟨c, by simp [hq], hk⟩ }, some (c.get ⟨k, hk⟩))
      else ({ s with cursor := .finished, fits := by simp [Cursor.Fits, hq] }, none)
    | .finished =>
      ({ s with released := s.released ++ [c], queue := queue, cursor := .idle, fits := trivial },
        none)

section
variable {s : ChunkStream α} {c : List α} {queue : List (List α)}

theorem read_of_nil (hq : s.queue = []) : s.read = (s, none) := by
  obtain ⟨released, _, current, cursor, fits⟩ := s
  cases hq
  rfl

theorem read_idle (hq : s.queue = c :: queue) (hr : s.cursor = .idle) :
    (s.read).1.released = s.released ∧ (s.read).1.queue = s.queue ∧
      (s.read).1.current = s.current ∧ (s.read).1.cursor = .reading 0 ∧ (s.read).2 = none := by
  obtain ⟨released, _, current, cursor, fits⟩ := s
  cases hq
  cases hr
  exact ⟨rfl, rfl, rfl, rfl, rfl⟩

theorem read_record {k : Nat} (hq : s.queue = c :: queue) (hr : s.cursor = .reading k)
    (hk : k < c.length) :
    (s.read).1.released = s.released ∧ (s.read).1.queue = s.queue ∧
      (s.read).1.current = s.current ∧ (s.read).1.cursor = .reading (k + 1) ∧
      (s.read).2 = some (c.get ⟨k, hk⟩) := by
  obtain ⟨released, _, current, cursor, fits⟩ := s
  cases hq
  cases hr
  simp [read, hk]

theorem read_end {k : Nat} (hq : s.queue = c :: queue) (hr : s.cursor = .reading k)
    (hk : ¬ k < c.length) :
    (s.read).1.released = s.released ∧ (s.read).1.queue = s.queue ∧
      (s.read).1.current = s.current ∧ (s.read).1.cursor = .finished ∧ (s.read).2 = none := by
  obtain ⟨released, _, current, cursor, fits⟩ := s
  cases hq
  cases hr
  simp [read, hk]

theorem read_finished (hq : s.queue = c :: queue) (hr : s.cursor = .finished) :
    (s.read).1.released = s.released ++ [c] ∧ (s.read).1.queue = queue ∧
      (s.read).1.current = s.current ∧ (s.read).1.cursor = .idle ∧ (s.read).2 = none := by
  obtain ⟨released, _, current, cursor, fits⟩ := s
  cases hq
  cases hr
  exact ⟨rfl, rfl, rfl, rfl, rfl⟩

end

/-! ## What the steps keep -/

section
variable (s : ChunkStream α)

theorem commit_chunks : s.commit.chunks = s.chunks ++ s.current.toList :=
  (List.append_assoc _ _ _).symm

theorem commit_committed : s.commit.committed = s.accepted := by
  rw [committed, commit_chunks, accepted, committed, List.flatten_append]
  cases s.current <;> simp

theorem commit_accepted : s.commit.accepted = s.accepted := by
  rw [accepted, commit_committed]
  exact List.append_nil _

theorem commit_delivered : s.commit.delivered = s.delivered := by
  have := (s.fits.append s.current.toList).2.1
  simp only [delivered, commit, this]

theorem create_accepted (h : s.current = none) : s.create.accepted = s.accepted := by
  rw [accepted, accepted, h]
  rfl

theorem accept_accepted {c : List α} (h : s.current = some c) (r : α) :
    (s.accept r).accepted = s.accepted ++ [r] := by
  simp [accepted, accept, h, committed, chunks]

theorem read_chunks : (s.read).1.chunks = s.chunks := by
  cases hq : s.queue with
  | nil => rw [read_of_nil hq]
  | cons c queue =>
    cases hr : s.cursor with
    | idle =>
      obtain ⟨h₁, h₂, _⟩ := read_idle hq hr
      rw [chunks, chunks, h₁, h₂]
    | reading k =>
      by_cases hk : k < c.length
      · obtain ⟨h₁, h₂, _⟩ := read_record hq hr hk
        rw [chunks, chunks, h₁, h₂]
      · obtain ⟨h₁, h₂, _⟩ := read_end hq hr hk
        rw [chunks, chunks, h₁, h₂]
    | finished =>
      obtain ⟨h₁, h₂, _⟩ := read_finished hq hr
      rw [chunks, chunks, h₁, h₂, hq, List.append_assoc]
      rfl

theorem read_current : (s.read).1.current = s.current := by
  cases hq : s.queue with
  | nil => rw [read_of_nil hq]
  | cons c queue =>
    cases hr : s.cursor with
    | idle => exact (read_idle hq hr).2.2.1
    | reading k =>
      by_cases hk : k < c.length
      · exact (read_record hq hr hk).2.2.1
      · exact (read_end hq hr hk).2.2.1
    | finished => exact (read_finished hq hr).2.2.1

theorem read_committed : (s.read).1.committed = s.committed := by
  rw [committed, read_chunks, committed]

theorem read_accepted : (s.read).1.accepted = s.accepted := by
  rw [accepted, read_committed, read_current, accepted]

theorem read_delivered : (s.read).1.delivered = s.delivered ++ (s.read).2.toList := by
  cases hq : s.queue with
  | nil => simp [read_of_nil hq]
  | cons c queue =>
    cases hr : s.cursor with
    | idle =>
      obtain ⟨h₁, h₂, _, h₄, h₅⟩ := read_idle hq hr
      simp [delivered, h₁, h₂, h₄, h₅, hr, Cursor.begun]
    | reading k =>
      by_cases hk : k < c.length
      · obtain ⟨h₁, h₂, _, h₄, h₅⟩ := read_record hq hr hk
        simp only [delivered, h₁, h₂, h₄, h₅, hr, hq, Cursor.begun, List.headD_cons,
          Option.toList_some, List.append_assoc]
        rw [List.take_succ_eq_append_getElem hk, List.get_eq_getElem]
      · obtain ⟨h₁, h₂, _, h₄, h₅⟩ := read_end hq hr hk
        simp only [delivered, h₁, h₂, h₄, h₅, hr, hq, Cursor.begun, List.headD_cons,
          Option.toList_none, List.append_nil]
        rw [List.take_of_length_le (by omega)]
    | finished =>
      obtain ⟨h₁, h₂, _, h₄, h₅⟩ := read_finished hq hr
      simp [delivered, h₁, h₄, h₅, hr, hq, Cursor.begun]

theorem begun_isPrefix : s.cursor.begun s.queue <+: s.queue.flatten := by
  cases hq : s.queue with
  | nil =>
    cases s.cursor <;> simp [Cursor.begun]
  | cons c queue =>
    cases s.cursor with
    | idle => exact List.nil_prefix
    | reading k => exact (List.take_prefix k c).trans (List.prefix_append c _)
    | finished => exact List.prefix_append c _

theorem delivered_isPrefix : s.delivered <+: s.committed := by
  rw [delivered, committed, chunks, List.flatten_append]
  exact (List.prefix_append_right_inj _).mpr s.begun_isPrefix

theorem committed_isPrefix : s.committed <+: s.accepted := List.prefix_append _ _

end

/-! ## A reader that stops -/

/-- The reader stops: it releases the chunk that it has begun. -/
def close (s : ChunkStream α) : ChunkStream α :=
  if s.cursor = .idle then s
  else ⟨s.released ++ s.queue.take 1, s.queue.drop 1, s.current, .idle, trivial⟩

/-- The records of the chunk at hand that it has not delivered. -/
def left (s : ChunkStream α) : List α :=
  match s.cursor with
  | .idle => []
  | .reading k => (s.queue.headD []).drop k
  | .finished => []

section
variable {s : ChunkStream α}

theorem close_of_idle (h : s.cursor = .idle) : s.close = s := if_pos h

theorem close_of_begun (h : s.cursor ≠ .idle) :
    s.close = ⟨s.released ++ s.queue.take 1, s.queue.drop 1, s.current, .idle, trivial⟩ := if_neg h

theorem close_chunks : s.close.chunks = s.chunks := by
  by_cases h : s.cursor = .idle
  · rw [close_of_idle h]
  · rw [close_of_begun h, chunks, List.append_assoc, List.take_append_drop, chunks]

theorem close_committed : s.close.committed = s.committed := by
  rw [committed, close_chunks, committed]

theorem close_current : s.close.current = s.current := by
  by_cases h : s.cursor = .idle
  · rw [close_of_idle h]
  · rw [close_of_begun h]

theorem close_accepted : s.close.accepted = s.accepted := by
  rw [accepted, close_committed, close_current, accepted]

theorem close_cursor : s.close.cursor = .idle := by
  by_cases h : s.cursor = .idle
  · rw [close_of_idle h, h]
  · rw [close_of_begun h]

/-- What counts as delivered by then is more than what was. -/
theorem close_delivered : s.close.delivered = s.delivered ++ s.left := by
  have hf := s.fits
  cases hr : s.cursor with
  | idle => simp [close_of_idle hr, left, hr]
  | reading k =>
    rw [hr] at hf
    obtain ⟨c, hc, -⟩ := hf
    obtain ⟨queue, hq⟩ := List.head?_eq_some_iff.mp hc
    have hne : s.cursor ≠ .idle := by simp [hr]
    simp [close_of_begun hne, delivered, left, hr, hq, Cursor.begun, List.append_assoc]
  | finished =>
    rw [hr] at hf
    obtain ⟨c, queue, hq⟩ := List.exists_cons_of_ne_nil hf
    have hne : s.cursor ≠ .idle := by simp [hr]
    simp [close_of_begun hne, delivered, left, hr, hq, Cursor.begun]

theorem committed_eq_close : s.committed = s.delivered ++ (s.left ++ s.close.queue.flatten) := by
  have hbegun : s.close.delivered = s.close.released.flatten := by
    rw [delivered, close_cursor]
    exact List.append_nil _
  rw [← List.append_assoc, ← close_delivered, hbegun, ← close_committed, committed, chunks, List.flatten_append]

end

/-! ## Progress of the reader -/

/-- The steps that a chunk takes the reader. -/
def cost (c : List α) : Nat := c.length + 3

def total (s : ChunkStream α) : Nat := (s.chunks.map cost).sum

/-- The steps that the reader has made with a chunk at hand. -/
def progress (s : ChunkStream α) : Nat := (s.released.map cost).sum + s.cursor.steps s.queue

section
variable {s t : ChunkStream α}

theorem commit_progress : s.commit.progress = s.progress := by
  have := (s.fits.append s.current.toList).2.2
  simp only [progress, commit, this]

theorem read_progress (hq : s.queue ≠ []) : (s.read).1.progress = s.progress + 1 := by
  cases hq' : s.queue with
  | nil => exact absurd hq' hq
  | cons c queue =>
    cases hr : s.cursor with
    | idle =>
      obtain ⟨h₁, h₂, _, h₄, _⟩ := read_idle hq' hr
      simp [progress, h₁, h₄, hr, Cursor.steps]
    | reading k =>
      by_cases hk : k < c.length
      · obtain ⟨h₁, h₂, _, h₄, _⟩ := read_record hq' hr hk
        simp [progress, h₁, h₄, hr, Cursor.steps, Nat.add_assoc]
      · obtain ⟨h₁, h₂, _, h₄, _⟩ := read_end hq' hr hk
        obtain ⟨c', hc', hkc⟩ : ∃ c' ∈ s.queue.head?, k ≤ c'.length := by
          have := s.fits
          rwa [hr] at this
        rw [hq'] at hc'
        cases hc'
        simp only [progress, h₁, h₂, h₄, hr, hq', Cursor.steps, List.headD_cons]
        omega
    | finished =>
      obtain ⟨h₁, h₂, _, h₄, _⟩ := read_finished hq' hr
      simp [progress, h₁, h₄, hr, hq', Cursor.steps, cost, Nat.add_assoc]

theorem progress_of_nil (hq : s.queue = []) : s.progress = s.total := by
  have hs : s.cursor.steps s.queue = 0 := by
    have hf := s.fits
    cases hr : s.cursor with
    | idle => rfl
    | reading k =>
      rw [hr, hq] at hf
      obtain ⟨c, hc, _⟩ := hf
      cases hc
    | finished =>
      rw [hr, hq] at hf
      exact absurd rfl hf
  rw [progress, total, chunks, hq, List.append_nil, ← hq, hs, Nat.add_zero]

theorem progress_lt (hq : s.queue ≠ []) :
    s.progress < ((s.released ++ s.queue.take 1).map cost).sum := by
  cases hq' : s.queue with
  | nil => exact absurd hq' hq
  | cons c queue =>
    have hf := s.fits
    rw [hq'] at hf
    have : s.cursor.steps (c :: queue) < cost c := by
      cases hr : s.cursor with
      | idle => simp [Cursor.steps, cost]
      | reading k =>
        rw [hr] at hf
        obtain ⟨c', hc', hk⟩ := hf
        cases hc'
        simp only [Cursor.steps, cost]
        omega
      | finished => simp [Cursor.steps, cost]
    simpa [progress, hq'] using this

/-- A reader that has made the steps of all chunks of an earlier state has delivered their records. -/
theorem committed_prefix_of_progress (hc : s.chunks <+: t.chunks) (hp : s.total ≤ t.progress) :
    s.committed <+: t.delivered := by
  have hrel : s.chunks <+: t.released := by
    rcases List.prefix_or_prefix_of_prefix hc (List.prefix_append t.released t.queue) with h | h
    · exact h
    · obtain ⟨rest, hrest⟩ := h
      cases rest with
      | nil => rw [List.append_nil] at hrest; rw [hrest]
      | cons c rest =>
        -- the next chunk was there, so its steps are in the total
        obtain ⟨more, hmore⟩ := hc
        have hqueue : t.queue = c :: (rest ++ more) := by
          rw [← hrest, List.append_assoc] at hmore
          exact (List.append_cancel_left hmore).symm
        have hlt := progress_lt (s := t) (by rw [hqueue]; exact List.cons_ne_nil _ _)
        rw [hqueue] at hlt
        rw [total, ← hrest] at hp
        simp only [List.map_append, List.sum_append, List.take_succ_cons, List.take_zero,
          List.map_cons, List.map_nil, List.sum_cons, List.sum_nil] at hlt hp
        omega
  rw [committed, delivered]
  obtain ⟨more, hmore⟩ := hrel
  rw [← hmore, List.flatten_append, List.append_assoc]
  exact List.prefix_append _ _

end

/-! ## Operations of the writer -/

/-- What an operation of the writer does to a stream when it accepts the records `out`: it commits all
that was accepted before, or nothing, and leaves the reader where it is. -/
structure WriterStep (s t : ChunkStream α) (out : List α) : Prop where
  accepted : t.accepted = s.accepted ++ out
  committed : (t.queue.length = s.queue.length ∧ t.committed = s.committed) ∨
    (s.queue.length < t.queue.length ∧ t.queue.length ≤ s.queue.length + 1 ∧
      t.committed = s.accepted)
  delivered : t.delivered = s.delivered
  progress : t.progress = s.progress
  chunks : s.chunks <+: t.chunks

section
variable {s t : ChunkStream α}

theorem WriterStep.refl (s : ChunkStream α) : WriterStep s s [] where
  accepted := (List.append_nil _).symm
  committed := Or.inl ⟨rfl, rfl⟩
  delivered := rfl
  progress := rfl
  chunks := List.prefix_rfl

theorem WriterStep.commit (s : ChunkStream α) : WriterStep s s.commit [] where
  accepted := by rw [commit_accepted, List.append_nil]
  committed := by
    cases hc : s.current with
    | none =>
      refine Or.inl ⟨by simp [ChunkStream.commit, hc], ?_⟩
      rw [commit_committed, ChunkStream.accepted, hc]
      exact List.append_nil _
    | some c =>
      refine Or.inr ⟨?_, ?_, commit_committed s⟩
      · simp [ChunkStream.commit, hc]
      · simp [ChunkStream.commit, hc]
  delivered := commit_delivered s
  progress := commit_progress
  chunks := by
    rw [commit_chunks]
    exact List.prefix_append _ _

theorem WriterStep.create (h : WriterStep s t []) (ht : t.current = none) :
    WriterStep s t.create [] where
  accepted := (create_accepted t ht).trans h.accepted
  committed := h.committed
  delivered := h.delivered
  progress := h.progress
  chunks := h.chunks

theorem WriterStep.accept (h : WriterStep s t []) {c : List α} (ht : t.current = some c) (r : α) :
    WriterStep s (t.accept r) [r] where
  accepted := by rw [accept_accepted t ht, h.accepted, List.append_nil]
  committed := h.committed
  delivered := h.delivered
  progress := h.progress
  chunks := h.chunks

end

/-! ## Runs -/

/-- After `n` steps of the reader and any of the writer, the reader has made these steps or those of
all chunks of the first state. -/
structure Advance (s t : ChunkStream α) (n : Nat) : Prop where
  chunks : s.chunks <+: t.chunks
  progress : s.total ≤ t.progress ∨ s.progress + n ≤ t.progress

section
variable {s t u : ChunkStream α} {n : Nat}

theorem total_mono (h : s.chunks <+: t.chunks) : s.total ≤ t.total := by
  obtain ⟨more, hmore⟩ := h
  rw [total, total, ← hmore, List.map_append, List.sum_append]
  exact Nat.le_add_right _ _

theorem Advance.refl (s : ChunkStream α) : Advance s s 0 where
  chunks := List.prefix_rfl
  progress := Or.inr le_rfl

theorem Advance.writer (h : Advance s t n) {out : List α} (hw : WriterStep t u out) :
    Advance s u n where
  chunks := h.chunks.trans hw.chunks
  progress := by rw [hw.progress]; exact h.progress

theorem Advance.read (h : Advance s t n) : Advance s (t.read).1 (n + 1) where
  chunks := by rw [read_chunks]; exact h.chunks
  progress := by
    by_cases hq : t.queue = []
    · rw [read_of_nil hq, progress_of_nil hq]
      exact Or.inl (total_mono h.chunks)
    · rw [read_progress hq]
      have := h.progress
      omega

/-- A reader that makes enough steps delivers all that was committed. -/
theorem Advance.delivers (h : Advance s t n) (hn : s.total ≤ n) : s.committed <+: t.delivered :=
  committed_prefix_of_progress h.chunks (by have := h.progress; omega)

end

end ChunkStream

end Xmap.Lib
