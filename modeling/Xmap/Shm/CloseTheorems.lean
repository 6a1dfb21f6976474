import Xmap.Shm.StreamTheorems

/-!
# Theorems on closing a reader

`XMapEntryReader.close` releases the chunk that its iterator stands in. The records of it that `read` has not
returned yet are lost.
-/

namespace Xmap.Shm

open Xmap.Lib

/-- `XMapEntryReader.close`, and `openMMap` of the next reader. There is an iterator from its preparation to its
commit. -/
def closeOp (s : Sys) : Sys :=
  { s with
    shared := if s.pc = .prepare then s.shared else (xmShmEntryIteratorCommit s.shared s.reader).1
    reader := { curHeader := (xmShmFormatCreate 0).curHeader, shmIter := ⟨false, 0⟩ }
    pc := .prepare }

inductive SessionOp where
  | op (o : Op)
  | close

/-- A trace whose deliveries are those of the present reader, with the number of accepted records that stand in
the chunks released before it. -/
structure Session where
  trace : Trace
  released : Nat

/-- The records of the chunk at hand that are not delivered yet. -/
def recordsLeft (s : Sys) : Nat :=
  if s.pc = .next then s.reader.curHeader.entriesNumber - s.reader.shmIter.entriesCount else 0

def Session.step (s : Session) : SessionOp → Session
  | .op o => { s with trace := s.trace.step o }
  | .close =>
    { trace := { s.trace with sys := closeOp s.trace.sys, delivered := [] }
      released := s.released + s.trace.delivered.length + recordsLeft s.trace.sys }

def Session.run (s : Session) (ops : List SessionOp) : Session := ops.foldl Session.step s

def ShmConf.session (conf : ShmConf) (mem : Mem) : Session := ⟨conf.start mem, 0⟩

/-- The committed records that no reader has delivered and that are not in a released chunk. -/
def Session.unread (s : Session) : List ShmRecord :=
  (s.trace.accepted.take s.trace.committed).drop (s.released + s.trace.delivered.length)

def SessionOp.Sound (conf : ShmConf) : SessionOp → Prop
  | .op o => o.Sound conf
  | .close => True

/-- After a close, a next reader that keeps reading delivers what was unread, in order, whatever the writer
does. -/
def Session.CloseKeeps (conf : ShmConf) (s : Session) : Prop :=
  ∃ n, ∀ more : List Op, (∀ op ∈ more, op.Sound conf) → n ≤ more.countP Op.isRead →
    s.unread.Sublist ((s.step .close).run (more.map .op)).trace.delivered

/-! ## What came before the present reader -/

section
variable {conf : ShmConf} {t : Trace} {s : Session} {a : ChunkStream ShmRecord} {before : List ShmRecord}

/-- The trace in which the deliveries of earlier readers still stand. -/
def Trace.after (t : Trace) (before : List ShmRecord) : Trace := { t with delivered := before ++ t.delivered }

theorem Trace.after_step (t : Trace) (before : List ShmRecord) (op : Op) :
    (t.after before).step op = (t.step op).after before := by
  have hsys : (t.after before).sys = t.sys := rfl
  cases op with
  | put r =>
    simp only [Trace.step, hsys]
    generalize putOp t.sys r = p
    rfl
  | flush =>
    simp only [Trace.step, hsys]
    generalize flushOp t.sys = s
    rfl
  | read => simp only [Trace.step, Trace.after, List.append_assoc]

theorem Trace.after_run (t : Trace) (before : List ShmRecord) (ops : List Op) :
    (t.after before).run ops = (t.run ops).after before := by
  induction ops generalizing t with
  | nil => rfl
  | cons op ops ih =>
    rw [Trace.run, List.foldl_cons, Trace.after_step]
    exact ih (t.step op)

theorem Session.run_op (s : Session) (ops : List Op) :
    s.run (ops.map .op) = { s with trace := s.trace.run ops } := by
  induction ops generalizing s with
  | nil => rfl
  | cons op ops ih => exact ih (s.step (.op op))

/-- The stream in chunks, with what stands in the chunks released before the present reader. -/
structure Session.Matches (conf : ShmConf) (s : Session) (a : ChunkStream ShmRecord)
    (before : List ShmRecord) : Prop where
  trace : (s.trace.after before).Matches conf a
  released : before.length = s.released

/-! ## The close -/

/-- The iterator has what is left of the chunk. -/
theorem Refines.recordsLeft {s : Sys} (h : Refines conf s a) : recordsLeft s = a.left.length := by
  have hr := h.reader
  cases hc : a.cursor with
  | idle =>
    rw [hc] at hr
    have hpc : s.pc ≠ .next := by rw [show s.pc = .prepare from hr]; decide
    rw [Xmap.Shm.recordsLeft, if_neg hpc, ChunkStream.left, hc]
    rfl
  | reading k =>
    rw [hc] at hr
    obtain ⟨hpc, hrd⟩ := hr
    rw [Xmap.Shm.recordsLeft, if_pos hpc, hrd.entriesNumber, hrd.entriesCount, ChunkStream.left, hc]
    exact List.length_drop.symm
  | finished =>
    rw [hc] at hr
    have hpc : s.pc ≠ .next := by rw [hr.1]; decide
    rw [Xmap.Shm.recordsLeft, if_neg hpc, ChunkStream.left, hc]
    rfl

theorem Refines.close_begun {s : Sys} (h : Refines conf s a) (hr : a.cursor ≠ .idle) (hpc : s.pc ≠ .prepare)
    (hh : s.reader.shmIter.hasHeader = true) {c : List ShmRecord} {queue : List (List ShmRecord)}
    (hq : a.queue = c :: queue) : Refines conf (closeOp s) a.close := by
  have hclose : closeOp s = { s with
      shared := { s.shared with header := conf.headerAt (a.released.length + 1) queue.length }
      reader := { curHeader := (xmShmFormatCreate 0).curHeader, shmIter := ⟨false, 0⟩ }
      pc := .prepare } := by
    simp only [closeOp, if_neg hpc, xmShmEntryIteratorCommit, hh, if_true, xmShmEntryCommit, h.release_header hq]
  rw [hclose, ChunkStream.close_of_begun hr]
  exact h.release hq (by rw [hq]; rfl) (by rw [hq]; rfl) rfl rfl

/-- A close is the release of the chunk that the reader has begun. -/
theorem Refines.close {s : Sys} (h : Refines conf s a) : Refines conf (closeOp s) a.close := by
  have hr := h.reader
  have hf := a.fits
  cases hc : a.cursor with
  | idle =>
    rw [hc] at hr
    have hpc : s.pc = .prepare := hr
    rw [ChunkStream.close_of_idle hc, closeOp, if_pos hpc]
    exact h.of_reader rfl rfl rfl (by rw [hc]; rfl)
  | reading k =>
    rw [hc] at hr hf
    obtain ⟨hpc, hrd⟩ := hr
    obtain ⟨c, hhead, -⟩ := hf
    obtain ⟨queue, hq⟩ := List.head?_eq_some_iff.mp hhead
    exact h.close_begun (by simp [hc]) (by simp [hpc]) hrd.hasHeader hq
  | finished =>
    rw [hc] at hr hf
    obtain ⟨hpc, hh⟩ := hr
    obtain ⟨c, queue, hq⟩ := List.exists_cons_of_ne_nil hf
    exact h.close_begun (by simp [hc]) (by simp [hpc]) hh hq

theorem Session.Matches.close (h : s.Matches conf a before) :
    (s.step .close).Matches conf a.close a.close.delivered := by
  have hleft := h.trace.refines.recordsLeft
  refine ⟨⟨h.trace.refines.close, ?_, ?_, ?_⟩, ?_⟩
  · exact h.trace.accepted.trans ChunkStream.close_accepted.symm
  · exact List.append_nil _
  · exact h.trace.committed.trans (congrArg List.length ChunkStream.close_committed.symm)
  · rw [ChunkStream.close_delivered, ← h.trace.delivered, List.length_append, ← hleft, Trace.after,
      List.length_append, h.released]
    rfl

theorem Session.Matches.step (h : s.Matches conf a before) {op : SessionOp} (hop : op.Sound conf) :
    ∃ b before', (s.step op).Matches conf b before' := by
  cases op with
  | op o =>
    obtain ⟨b, hb, -⟩ := h.trace.step hop
    rw [Trace.after_step] at hb
    exact ⟨b, before, hb, h.released⟩
  | close => exact ⟨_, _, h.close⟩

theorem ShmConf.session_matches (conf : ShmConf) (mem : Mem) :
    (conf.session mem).Matches conf ChunkStream.empty [] where
  trace := conf.start_matches mem
  released := rfl

theorem Session.Matches.run (h : s.Matches conf a before) {ops : List SessionOp}
    (hops : ∀ op ∈ ops, op.Sound conf) : ∃ b before', (s.run ops).Matches conf b before' := by
  induction ops generalizing s a before with
  | nil => exact ⟨a, before, h⟩
  | cons op ops ih =>
    obtain ⟨hop, hrest⟩ := List.forall_mem_cons.mp hops
    obtain ⟨b, before', hb⟩ := h.step hop
    exact ih hb hrest

/-! ## What is kept -/

theorem Session.Matches.unread (h : s.Matches conf a before) :
    s.unread = a.left ++ a.close.queue.flatten := by
  have hdelivered : s.released + s.trace.delivered.length = a.delivered.length := by
    rw [← h.trace.delivered, Trace.after, List.length_append, h.released]
  have hcommitted : s.trace.accepted.take s.trace.committed = a.committed := by
    have haccepted : s.trace.accepted = a.accepted := h.trace.accepted
    have hcount : s.trace.committed = a.committed.length := h.trace.committed
    rw [haccepted, hcount, ← List.prefix_iff_eq_take.mp a.committed_isPrefix]
  rw [Session.unread, hdelivered, hcommitted, ChunkStream.committed_eq_close, List.drop_left]

theorem run_read_committed (t : Trace) (n : Nat) : (t.run (List.replicate n .read)).committed = t.committed := by
  induction n generalizing t with
  | zero => rfl
  | succ n ih => exact ih (t.step .read)

theorem Session.Matches.before_eq (h : s.Matches conf a before) (hidle : a.cursor = .idle)
    (hfresh : s.trace.delivered = []) : before = a.released.flatten := by
  have hd := h.trace.delivered
  rw [Trace.after, hfresh, ChunkStream.delivered, hidle] at hd
  simpa [Cursor.begun] using hd

/-- A next reader that keeps reading delivers what was committed when it was opened. -/
theorem Session.Matches.next_delivers (h : s.Matches conf a before) (hidle : a.cursor = .idle)
    (hfresh : s.trace.delivered = []) {more : List Op} (hmore : ∀ op ∈ more, op.Sound conf)
    (hn : a.total ≤ more.countP Op.isRead) : a.queue.flatten <+: (s.run (more.map .op)).trace.delivered := by
  obtain ⟨b, hb, hadv⟩ := h.trace.run hmore
  have hprefix := hadv.delivers hn
  rw [← hb.delivered, Trace.after_run, ChunkStream.committed, ChunkStream.chunks, List.flatten_append,
    ← h.before_eq hidle hfresh] at hprefix
  rw [Session.run_op]
  exact (List.prefix_append_right_inj before).mp hprefix

/-- And without the writer, nothing else. -/
theorem Session.Matches.next_delivers_at_most (h : s.Matches conf a before) (hidle : a.cursor = .idle)
    (hfresh : s.trace.delivered = []) (n : Nat) :
    (s.run ((List.replicate n Op.read).map .op)).trace.delivered.length ≤ a.queue.flatten.length := by
  have hreads : ∀ op ∈ List.replicate n Op.read, op.Sound conf := fun op hop => by
    rw [List.eq_of_mem_replicate hop]
    trivial
  obtain ⟨b, hb, -⟩ := h.trace.run hreads
  have hle := b.delivered_isPrefix.length_le
  have hsame : b.committed.length = a.committed.length := by
    rw [← hb.committed, run_read_committed, h.trace.committed]
  rw [← hb.delivered, Trace.after_run, hsame, ChunkStream.committed, ChunkStream.chunks, List.flatten_append,
    ← h.before_eq hidle hfresh] at hle
  simp only [Trace.after, List.length_append] at hle
  rw [Session.run_op]
  exact Nat.le_of_add_le_add_left hle

/-- A close keeps what is unread exactly when nothing is left of the chunk at hand. -/
theorem Session.Matches.closeKeeps_iff (h : s.Matches conf a before) : s.CloseKeeps conf ↔ a.left = [] := by
  have hclose := h.close
  have hunread := h.unread
  constructor
  · rintro ⟨n, hn⟩
    have hreads : (List.replicate n Op.read).countP Op.isRead = n := by
      rw [List.countP_replicate]
      exact if_pos rfl
    have hsub := hn (List.replicate n .read) (fun op hop => by
      rw [List.eq_of_mem_replicate hop]
      trivial) hreads.ge
    have hlen := hsub.length_le.trans (hclose.next_delivers_at_most ChunkStream.close_cursor rfl n)
    rw [hunread, List.length_append] at hlen
    exact List.length_eq_zero_iff.mp (by omega)
  · intro hleft
    refine ⟨a.close.total, fun more hmore hn => ?_⟩
    rw [hunread, hleft, List.nil_append]
    exact (hclose.next_delivers ChunkStream.close_cursor rfl hmore hn).sublist

/-- While there is an iterator, what is left is what it has next. -/
theorem Refines.left_eq_nil_iff {s : Sys} (h : Refines conf s a) :
    a.left = [] ↔ (s.pc = .next → ¬ hasNext s.reader) := by
  have hleft := h.recordsLeft
  rw [Xmap.Shm.recordsLeft] at hleft
  rw [← List.length_eq_zero_iff, ← hleft]
  by_cases hpc : s.pc = .next
  · have hh : s.reader.shmIter.hasHeader = true := by
      have hr := h.reader
      cases hc : a.cursor with
      | idle =>
        rw [hc] at hr
        exact absurd (hpc.symm.trans hr) (by decide)
      | reading k =>
        rw [hc] at hr
        exact hr.2.hasHeader
      | finished =>
        rw [hc] at hr
        exact hr.2
    rw [if_pos hpc, hasNext]
    simp only [hpc, hh, true_and, forall_const, Nat.sub_eq_zero_iff_le, Nat.not_lt]
  · rw [if_neg hpc]
    exact iff_of_true rfl fun h => absurd h hpc

/-- In every state that sound puts, flushes, reads and closes lead to, a close loses nothing exactly when the
iterator has no record left. -/
theorem xmEntryReader_closeKeeps_iff (conf : ShmConf) (mem : Mem) {ops : List SessionOp}
    (hops : ∀ op ∈ ops, op.Sound conf) :
    ((conf.session mem).run ops).CloseKeeps conf ↔
      (((conf.session mem).run ops).trace.sys.pc = .next →
        ¬ hasNext ((conf.session mem).run ops).trace.sys.reader) := by
  obtain ⟨a, before, h⟩ := (conf.session_matches mem).run hops
  have hrefines : Refines conf ((conf.session mem).run ops).trace.sys a := h.trace.refines
  rw [h.closeKeeps_iff, hrefines.left_eq_nil_iff]

end

/-! ## A close after the first of two records -/

def twoRecords : List SessionOp :=
  [.op (.put ⟨1, [7]⟩), .op (.put ⟨1, [8]⟩), .op .flush, .op .read, .op .read]

theorem twoRecords_sound : ∀ op ∈ twoRecords, op.Sound pageConf := by
  simp [twoRecords, SessionOp.Sound, Op.Sound, ShmConf.Sound]

theorem xmEntryReader_closeKeeps_iff_two :
    ((pageConf.session zeroMem).run twoRecords).CloseKeeps pageConf ↔
      (((pageConf.session zeroMem).run twoRecords).trace.sys.pc = .next →
        ¬ hasNext ((pageConf.session zeroMem).run twoRecords).trace.sys.reader) :=
  xmEntryReader_closeKeeps_iff pageConf zeroMem twoRecords_sound

/-- The second record is lost. -/
theorem xmEntryReader_close_loses : ¬ ((pageConf.session zeroMem).run twoRecords).CloseKeeps pageConf := by
  obtain ⟨a, before, h⟩ := (pageConf.session_matches zeroMem).run twoRecords_sound
  have hrefines : Refines pageConf ((pageConf.session zeroMem).run twoRecords).trace.sys a := h.trace.refines
  rw [h.closeKeeps_iff, hrefines.left_eq_nil_iff]
  intro hleft
  exact hleft (by decide +kernel) (by decide +kernel)

end Xmap.Shm
