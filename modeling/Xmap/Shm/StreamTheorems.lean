import Xmap.Shm.Lemmas.ReaderOps
import Xmap.Shm.Lemmas.WriterOps

/-!
# Theorems on the stream of results

While no record has a size that is cut to one that seems to fit, the ring loses, duplicates and reorders
nothing.
-/

namespace Xmap.Shm

open Xmap.Lib

/-! ## The invariant of runs -/

/-- What is noted of a run is what the stream in chunks has. -/
structure Trace.Matches (conf : ShmConf) (t : Trace) (a : ChunkStream ShmRecord) : Prop where
  refines : Refines conf t.sys a
  accepted : t.accepted = a.accepted
  delivered : t.delivered = a.delivered
  committed : t.committed = a.committed.length

def Op.Sound (conf : ShmConf) : Op → Prop
  | .put r => conf.Sound r
  | .flush => True
  | .read => True

def Op.isRead : Op → Bool
  | .put _ => false
  | .flush => false
  | .read => true

section
variable {conf : ShmConf} {t : Trace} {a b : ChunkStream ShmRecord}

theorem ShmConf.start_matches (conf : ShmConf) (mem : Mem) :
    (conf.start mem).Matches conf ChunkStream.empty where
  refines := Refines.init mem
  accepted := rfl
  delivered := rfl
  committed := rfl

/-- The count of entries in use shows whether a writer's operation has committed. -/
theorem Trace.Matches.committedAfter (h : t.Matches conf a) {s : Sys} (hs : Refines conf s b)
    {out : List ShmRecord} (hw : ChunkStream.WriterStep a b out) :
    committedAfter t s = b.committed.length := by
  have ha : t.sys.shared.header.shmEntriesCountCur = a.queue.length := by
    rw [h.refines.header]
    rfl
  have hb : s.shared.header.shmEntriesCountCur = b.queue.length := by
    rw [hs.header]
    rfl
  rw [Xmap.Shm.committedAfter, ha, hb]
  rcases hw.committed with ⟨hq, hc⟩ | ⟨hq, _, hc⟩
  · rw [if_pos hq, h.committed, hc]
  · rw [if_neg (by omega), h.accepted, hc]

theorem Trace.Matches.step (h : t.Matches conf a) {op : Op} (hop : op.Sound conf) :
    ∃ b, (t.step op).Matches conf b ∧
      (if op.isRead then b = (a.read).1 else ∃ out, ChunkStream.WriterStep a b out) := by
  cases op with
  | put r =>
    obtain ⟨b, hb, hw⟩ := h.refines.put hop
    rw [Trace.step]
    generalize putOp t.sys r = p at hb hw
    refine ⟨b, ⟨hb, ?_, ?_, h.committedAfter hb hw⟩, ⟨_, hw⟩⟩
    · rw [hw.accepted, ← h.accepted]
      by_cases hrc : p.2 = 0
      · simp only [if_pos hrc]
      · simp only [if_neg hrc, List.append_nil]
    · exact h.delivered.trans hw.delivered.symm
  | flush =>
    obtain ⟨b, hb, hw, _⟩ := h.refines.flush
    refine ⟨b, ⟨hb, ?_, ?_, h.committedAfter hb hw⟩, ⟨_, hw⟩⟩
    · rw [hw.accepted, List.append_nil]
      exact h.accepted
    · exact h.delivered.trans hw.delivered.symm
  | read =>
    obtain ⟨hb, hout⟩ := h.refines.read
    refine ⟨(a.read).1, ⟨hb, ?_, ?_, ?_⟩, rfl⟩
    · exact h.accepted.trans a.read_accepted.symm
    · show t.delivered ++ (readOp t.sys).2.toList = _
      rw [hout, h.delivered, a.read_delivered]
    · exact h.committed.trans (congrArg List.length a.read_committed.symm)

/-- A run, on a stream in chunks: the reader advances with each of its operations. -/
theorem Trace.Matches.run (h : t.Matches conf a) {ops : List Op} (hops : ∀ op ∈ ops, op.Sound conf) :
    ∃ b, (t.run ops).Matches conf b ∧ ChunkStream.Advance a b (ops.countP Op.isRead) := by
  induction ops using List.reverseRecOn with
  | nil => exact ⟨a, h, ChunkStream.Advance.refl a⟩
  | append_singleton ops op ih =>
    obtain ⟨b, hb, hadv⟩ := ih fun op hop => hops op (List.mem_append_left _ hop)
    obtain ⟨d, hd, hstep⟩ := hb.step (hops op (by simp))
    refine ⟨d, ?_, ?_⟩
    · rw [Trace.run, List.foldl_append]
      exact hd
    · rw [List.countP_append, List.countP_singleton]
      cases hop : op.isRead with
      | false =>
        simp only [hop, Bool.false_eq_true, if_false] at hstep
        obtain ⟨out, hw⟩ := hstep
        exact hadv.writer hw
      | true =>
        simp only [hop, if_true] at hstep
        rw [hstep]
        exact hadv.read

/-- What holds of a state of the stream: the records delivered are a prefix of those accepted, a reader
that keeps reading delivers every committed record, and a flush commits every accepted one. -/
structure Trace.Lossless (conf : ShmConf) (t : Trace) : Prop where
  delivered_isPrefix : t.delivered <+: t.accepted
  delivers : ∃ n, ∀ more : List Op, (∀ op ∈ more, op.Sound conf) → n ≤ more.countP Op.isRead →
    t.accepted.take t.committed <+: (t.run more).delivered
  flush : (t.step .flush).committed = (t.step .flush).accepted.length

theorem Trace.Matches.lossless (h : t.Matches conf a) : t.Lossless conf where
  delivered_isPrefix := by
    rw [h.delivered, h.accepted]
    exact a.delivered_isPrefix.trans a.committed_isPrefix
  delivers := by
    refine ⟨a.total, fun more hmore hn => ?_⟩
    obtain ⟨b, hb, hadv⟩ := h.run hmore
    rw [hb.delivered, h.accepted, h.committed,
      ← List.prefix_iff_eq_take.mp a.committed_isPrefix]
    exact hadv.delivers hn
  flush := by
    obtain ⟨b, hb, hw, hc⟩ := h.refines.flush
    show Xmap.Shm.committedAfter t (flushOp t.sys) = t.accepted.length
    rw [h.committedAfter hb hw, hc, h.accepted]

/-- A run whose records are sound loses, duplicates and reorders nothing. -/
theorem xmShm_stream_lossless (conf : ShmConf) (mem : Mem) {ops : List Op}
    (hops : ∀ op ∈ ops, op.Sound conf) : ((conf.start mem).run ops).Lossless conf := by
  obtain ⟨b, hb, _⟩ := (conf.start_matches mem).run hops
  exact hb.lossless

end

/-! ## A record that is cut -/

/-- A file of a header page and one entry. -/
def pageConf : ShmConf where
  pageShift := 12
  fsize := 8192
  fentrySize := 4096
  page_le := page_shift_le
  fsize_lt := by decide
  header_le := page_holds_header
  entry_lt := page_size_lt
  entries_pos := by decide

def zeroMem : Mem := fun _ => 0

theorem xmShm_stream_lossless_record :
    ((pageConf.start zeroMem).run [.put ⟨1, [7]⟩, .read, .flush, .read]).Lossless pageConf :=
  xmShm_stream_lossless pageConf zeroMem (by simp [Op.Sound, ShmConf.Sound])

/-- The bytes of a record whose data does not fit: nothing is written of the data. -/
def encCut (r : ShmRecord) : List UInt8 :=
  toBE 4 EIMAGIC ++ (toBE 4 ((r.data.length + 21) % 2 ^ 32) ++ (toBE 1 r.type.toNat ++ toBE 4 0))

theorem recordWrites_cut {m : Mem} {bf : XmBinFormat} {r : ShmRecord} (h : bf.pos + 13 ≤ bf.finish)
    (hcut : bf.finish < bf.pos + (21 + r.data.length)) :
    recordWrites (m, bf) (entryRecordOf r) = doWrite (m, bf) (encCut r) := by
  simp only [recordWrites, xmBfUint32Write, xmBfUint8Write]
  rw [xmBfValueWrite_eq (w := (m, bf)) (by show bf.pos + 4 ≤ bf.finish; omega),
    xmBfValueWrite_doWrite (by simp; omega), xmBfValueWrite_doWrite (by simp; omega),
    xmBfValueWrite_doWrite (by simp; omega), xmBfBytesWrite, if_pos]
  · simp only [List.append_assoc]
    rfl
  · simp [doWrite, xmBfPosUpdate, entryRecordOf]
    omega

def cutRecord : ShmRecord := ⟨1, List.replicate (2 ^ 32 - 21) 0⟩

theorem cutRecord_length : cutRecord.data.length = 2 ^ 32 - 21 := List.length_replicate

/-- The writer in the first entry. -/
def firstFmt : XmShmFormat :=
  ⟨⟨⟨0, 4096, 8192⟩, ⟨4096, 4096 + 20, 8192⟩, FIMAGIC, MAJOR_VERSION, MINJOR_VERSION, 0, 0⟩, true,
    4096⟩

/-- What the put of the record leaves: an entry with one record of 13 bytes. -/
def cutSys : Sys :=
  { pageConf.init zeroMem with
    shared := ⟨zeroMem.write 4116 (toBE 4 EIMAGIC ++ (toBE 4 0 ++ (toBE 1 1 ++ toBE 4 0))),
      pageConf.header⟩
    writer := ⟨⟨⟨0, 4096, 8192⟩, ⟨4096, 4129, 8192⟩, FIMAGIC, MAJOR_VERSION, MINJOR_VERSION, 1, 13⟩,
      true, 4096⟩ }

theorem putOp_cutRecord : putOp (pageConf.init zeroMem) cutRecord = (cutSys, 0) := by
  have hlen := cutRecord_length
  have hcreate : shmEntryHeaderCreate (pageConf.init zeroMem).shared
      (pageConf.init zeroMem).writer = ((pageConf.init zeroMem).shared, firstFmt, true) := rfl
  have hover : ¬ isRecordSizeOver (pageConf.init zeroMem).writer (entryRecordOf cutRecord) := by
    rw [isRecordSizeOver_iff (show _ = pageConf.fentrySize from rfl), hlen]
    decide
  have hneed : isNeedCreateEntryHeader (pageConf.init zeroMem).writer (entryRecordOf cutRecord) :=
    Or.inl rfl
  have hcut : encCut cutRecord = toBE 4 EIMAGIC ++ (toBE 4 0 ++ (toBE 1 1 ++ toBE 4 0)) := by
    rw [encCut, hlen]
    rfl
  have hwrites : recordWrites (zeroMem, (⟨4096, 4096 + 20, 8192⟩ : XmBinFormat))
      (entryRecordOf cutRecord) = doWrite (zeroMem, ⟨4096, 4096 + 20, 8192⟩) (encCut cutRecord) :=
    recordWrites_cut (by decide) (by rw [hlen]; decide)
  have hrec := recordSys_eq (s := { pageConf.init zeroMem with writer := firstFmt }) rfl hwrites
  rw [hcut] at hrec
  rw [putOp_create hover hneed hcreate]
  exact congrArg (·, (0 : Int)) hrec

theorem readOp_cutSys :
    (readOp (readOp (flushOp cutSys)).1).2 = some ⟨1, []⟩ := by
  decide +kernel

/-- A record of which 2^32 bytes would be written is accepted, and an empty one is delivered. -/
theorem xmShm_stream_cut_record :
    ((pageConf.start zeroMem).run [.put cutRecord, .flush, .read, .read]).accepted = [cutRecord] ∧
      ¬ ((pageConf.start zeroMem).run [.put cutRecord, .flush, .read, .read]).delivered <+:
        ((pageConf.start zeroMem).run [.put cutRecord, .flush, .read, .read]).accepted := by
  have hput : (pageConf.start zeroMem).step (.put cutRecord) =
      ⟨cutSys, [cutRecord], [], committedAfter (pageConf.start zeroMem) cutSys⟩ := by
    rw [Trace.step, show (pageConf.start zeroMem).sys = pageConf.init zeroMem from rfl,
      putOp_cutRecord]
    rfl
  have hrun : ∀ (t : Trace) (op : Op) (ops : List Op), t.run (op :: ops) = (t.step op).run ops :=
    fun _ _ _ => rfl
  have hnil : ∀ t : Trace, t.run [] = t := fun _ => rfl
  have hfirst : (readOp (flushOp cutSys)).2 = none := by decide +kernel
  have hdelivered : ((pageConf.start zeroMem).run [.put cutRecord, .flush, .read, .read]).delivered =
      [⟨1, []⟩] := by
    rw [hrun, hput, hrun, hrun, hrun, hnil]
    simp only [Trace.step, hfirst, readOp_cutSys, Option.toList_none, Option.toList_some,
      List.append_nil, List.nil_append]
  have haccepted : ((pageConf.start zeroMem).run [.put cutRecord, .flush, .read, .read]).accepted =
      [cutRecord] := by
    rw [hrun, hput, hrun, hrun, hrun, hnil]
    rfl
  refine ⟨haccepted, fun hpre => ?_⟩
  rw [hdelivered, haccepted, List.singleton_prefix_cons_iff] at hpre
  have hlen : ([] : List UInt8).length = cutRecord.data.length :=
    congrArg (fun r => r.data.length) hpre
  rw [cutRecord_length, List.length_nil] at hlen
  omega

end Xmap.Shm
