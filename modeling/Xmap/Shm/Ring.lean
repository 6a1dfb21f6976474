import Xmap.Lib.Steps
import Xmap.Shm.Mmap

/-!
# The ring as a system (`xm_shm_entry_get`, `xm_shm_entry_commit`)

The writer and the reader get and commit entries in any order, and each call is one step. A side commits
only an entry that it has got. Sizes are words of 64 bits.
-/

namespace Xmap.Shm

open Xmap.Lib

/-- `xm_shm_init` of the writer, with `_shm_header_init`. -/
def xmShmInit (size entrySize privDataSize pageShift : Nat) : XmShmHeader :=
  let hsize := xmAlignUp64 (shmHeaderSize + privDataSize) pageShift
  { shmEntriesStart := hsize
    shmEntriesCount := (size + 2 ^ 64 - hsize) % 2 ^ 64 / entrySize
    shmEntrySize := entrySize
    shmEntriesCountCur := 0
    shmWriteEntryPos := 0
    shmReadEntryPos := 0 }

/-- A mapped file is initialised with its sizes rounded up to pages. -/
theorem xmShmMmapCreate_eq_xmShmInit (fsize entrySize pageShift : Nat) :
    xmShmMmapCreate fsize entrySize pageShift =
      xmShmInit (xmAlignUp64 fsize pageShift) (xmAlignUp64 entrySize pageShift) 0 pageShift := rfl

/-- Page-aligned sizes that give an entry at least. -/
structure RingConf where
  pageShift : Nat
  size : Nat
  entrySize : Nat
  privDataSize : Nat
  page_lt : pageShift < 64
  size_lt : size < 2 ^ 64
  entry_lt : entrySize < 2 ^ 64
  priv_lt : privDataSize < 2 ^ 64
  size_aligned : 2 ^ pageShift ∣ size
  entry_aligned : 2 ^ pageShift ∣ entrySize
  entries_pos : 1 ≤ (xmShmInit size entrySize privDataSize pageShift).shmEntriesCount

/-- The ring with the entries that the two sides hold, and the indices of the entries that are committed and
not yet released. -/
structure RingSys where
  header : XmShmHeader
  writer : Option XmShmEntry
  reader : Option XmShmEntry
  committed : List Nat
deriving DecidableEq, Repr

namespace RingSys

def held (s : RingSys) (isWrite : Bool) : Option XmShmEntry := if isWrite then s.writer else s.reader

def hold (s : RingSys) (isWrite : Bool) (e : Option XmShmEntry) : RingSys :=
  if isWrite then { s with writer := e } else { s with reader := e }

end RingSys

/-- A call of a side. The address of an entry may not be mapped. -/
inductive RingOp where
  | get (isWrite mapped : Bool)
  | commit (isWrite : Bool)
deriving DecidableEq, Repr

/-- A step of the ring. `xm_shm_entry_get` returns -1 where it changes nothing. -/
def ringStep (s : RingSys) : RingOp → Option RingSys
  | .get isWrite mapped =>
    match xmShmEntryGet s.header isWrite with
    | none => some s
    | some e => some (if mapped then s.hold isWrite (some e) else s)
  | .commit isWrite =>
    (s.held isWrite).map fun e =>
      { s.hold isWrite none with
        header := (xmShmEntryCommit s.header isWrite).1
        committed := if isWrite then s.committed ++ [e.entryIndex] else s.committed.erase e.entryIndex }

namespace RingConf

variable (conf : RingConf)

def header : XmShmHeader := xmShmInit conf.size conf.entrySize conf.privDataSize conf.pageShift

def start : RingSys := ⟨conf.header, none, none, []⟩

end RingConf

end Xmap.Shm
