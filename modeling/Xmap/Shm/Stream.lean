import Xmap.Shm.Format

/-!
# The stream of results

The writing process puts and flushes, and the reading process calls `XMapEntryReader.read` again and
again, which prepares an entry, takes its records one by one and commits it. Operations of the two
alternate in any order, each as a whole.
-/

namespace Xmap.Shm

open Xmap.Lib

/-- What the next operation of `XMapEntryReader.read` is. -/
inductive ReaderPc where
  | prepare
  | next
  | commit
deriving DecidableEq, Repr

/-- Both processes and the memory that they share. -/
structure Sys where
  shared : Shared
  writer : XmShmFormat
  reader : XmShmReader
  pc : ReaderPc

/-- One operation of `XMapEntryReader.read`, and the record that it returns. -/
def readOp (s : Sys) : Sys × Option ShmRecord :=
  match s.pc with
  | .prepare =>
    let p := xmShmEntryIteratorPrefare s.shared s.reader
    ({ s with reader := p.1, pc := if p.2 then .next else .prepare }, none)
  | .next =>
    let r := recordNext s.shared.mem s.reader
    ({ s with reader := r.1, pc := if r.2.isSome then .next else .commit },
      r.2.map XmShmEntryRecord.toShmRecord)
  | .commit =>
    let c := xmShmEntryIteratorCommit s.shared s.reader
    ({ s with shared := c.1, reader := c.2, pc := .prepare }, none)

def putOp (s : Sys) (r : ShmRecord) : Sys × Int :=
  let p := xmShmEntryRecordPutOnce s.shared s.writer r
  ({ s with shared := p.1, writer := p.2.1 }, p.2.2)

def flushOp (s : Sys) : Sys :=
  let w := xmShmFormatFlush s.shared s.writer
  { s with shared := w.1, writer := w.2 }

/-- `xm_shm_format_with_mmap_create` for a file of a `uint64_t` size that holds an entry. The page size
of the system is a power of two. -/
structure ShmConf where
  pageShift : Nat
  fsize : Nat
  fentrySize : Nat
  page_le : pageShift ≤ 32
  fsize_lt : xmAlignUp fsize pageShift < 2 ^ 64
  header_le : xmShmEntryHeaderLen ≤ fentrySize
  entry_lt : fentrySize < 2 ^ 32
  entries_pos : 0 < (shmHeaderInit (xmAlignUp fsize pageShift) (xmAlignUp fentrySize pageShift)
    pageShift).shmEntriesCount

/-! ## Pages and entries of 4096 bytes -/

theorem page_shift_le : 12 ≤ 32 := by decide

theorem page_holds_header : xmShmEntryHeaderLen ≤ 4096 := by decide

theorem page_size_lt : 4096 < 2 ^ 32 := by decide

namespace ShmConf

variable (conf : ShmConf)

def header : XmShmHeader :=
  shmHeaderInit (xmAlignUp conf.fsize conf.pageShift) (xmAlignUp conf.fentrySize conf.pageShift)
    conf.pageShift

/-- Both processes have opened the file; its bytes are arbitrary. -/
def init (mem : Mem) : Sys where
  shared := { mem := mem, header := conf.header }
  writer := xmShmFormatCreate conf.fentrySize
  reader := { curHeader := (xmShmFormatCreate 0).curHeader, shmIter := ⟨false, 0⟩ }
  pc := .prepare

end ShmConf

/-! ## Runs -/

inductive Op where
  | put (r : ShmRecord)
  | flush
  | read

/-- A state with what was accepted and delivered, and how many accepted records are in committed
chunks. -/
structure Trace where
  sys : Sys
  accepted : List ShmRecord
  delivered : List ShmRecord
  committed : Nat

/-- A writer's operation that counts an entry more has committed the records accepted before it. -/
def committedAfter (t : Trace) (s : Sys) : Nat :=
  if s.shared.header.shmEntriesCountCur = t.sys.shared.header.shmEntriesCountCur then t.committed
  else t.accepted.length

def Trace.step (t : Trace) : Op → Trace
  | .put r =>
    let p := putOp t.sys r
    { t with
      sys := p.1
      accepted := if p.2 = 0 then t.accepted ++ [r] else t.accepted
      committed := committedAfter t p.1 }
  | .flush => { t with sys := flushOp t.sys, committed := committedAfter t (flushOp t.sys) }
  | .read =>
    let p := readOp t.sys
    { t with sys := p.1, delivered := t.delivered ++ p.2.toList }

def ShmConf.start (conf : ShmConf) (mem : Mem) : Trace := ⟨conf.init mem, [], [], 0⟩

def Trace.run (t : Trace) (ops : List Op) : Trace := ops.foldl Trace.step t

end Xmap.Shm
