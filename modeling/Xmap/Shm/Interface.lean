import Xmap.Shm.BinFormat

/-!
# The ring in shared memory (`xm_shm_interface`)

The header is shared by the process that writes and the one that reads; each moves its own position,
and both count the entries in use.
-/

namespace Xmap.Shm

open Xmap.Lib

structure XmShmHeader where
  shmEntriesStart : Nat
  shmEntriesCount : Nat
  shmEntrySize : Nat
  shmEntriesCountCur : Nat
  shmWriteEntryPos : Nat
  shmReadEntryPos : Nat
deriving DecidableEq, Repr

structure XmShmEntry where
  entryIndex : Nat
  start : Nat
  finish : Nat
deriving DecidableEq, Repr

/-- `xm_align_up` to a power of two. -/
def xmAlignUp (d shift : Nat) : Nat := (d + (2 ^ shift - 1)) >>> shift <<< shift

/-- `sizeof(xm_shm_header_t)`. -/
def shmHeaderSize : Nat := 88

def shmEntriesCountGet (size hsize entrySize : Nat) : Nat := (size - hsize) / entrySize

/-- `_shm_header_init`, without private data. -/
def shmHeaderInit (size entrySize pageShift : Nat) : XmShmHeader :=
  let hsize := xmAlignUp shmHeaderSize pageShift
  { shmEntriesStart := hsize
    shmEntriesCount := shmEntriesCountGet size hsize entrySize
    shmEntrySize := entrySize
    shmEntriesCountCur := 0
    shmWriteEntryPos := 0
    shmReadEntryPos := 0 }

def xmShmEntryPosOffset (mh : XmShmHeader) (indx : Nat) : Nat :=
  mh.shmEntrySize * indx + mh.shmEntriesStart

/-- The first statement of `xm_shm_entry_pos_update`: the own position steps. -/
def XmShmHeader.stepPos (mh : XmShmHeader) (isWrite : Bool) : XmShmHeader :=
  if isWrite then
    { mh with shmWriteEntryPos := (mh.shmWriteEntryPos + 1) % mh.shmEntriesCount }
  else { mh with shmReadEntryPos := (mh.shmReadEntryPos + 1) % mh.shmEntriesCount }

/-- The value that the second statement stores for a loaded one. -/
def addCount (isWrite : Bool) (v : Nat) : Nat :=
  if isWrite then (v + 1) % 2 ^ 64 else (v + (2 ^ 64 - 1)) % 2 ^ 64

def xmShmEntryPosUpdate (mh : XmShmHeader) (isWrite : Bool) : XmShmHeader :=
  let mh := mh.stepPos isWrite
  { mh with shmEntriesCountCur := addCount isWrite mh.shmEntriesCountCur }

def xmShmEmpty (mh : XmShmHeader) : Bool := mh.shmEntriesCountCur = 0

def xmShmFull (mh : XmShmHeader) : Bool := mh.shmEntriesCountCur = mh.shmEntriesCount

def shmEntryCanGet (mh : XmShmHeader) (isWrite : Bool) : Bool :=
  if isWrite && xmShmFull mh then false
  else if !isWrite && xmShmEmpty mh then false
  else true

def shmEntryIndexGet (mh : XmShmHeader) (isWrite : Bool) : Nat :=
  if isWrite then mh.shmWriteEntryPos else mh.shmReadEntryPos

def shmEntryInit (mh : XmShmHeader) (indx : Nat) : XmShmEntry :=
  { entryIndex := indx
    start := xmShmEntryPosOffset mh indx
    finish := xmShmEntryPosOffset mh indx + mh.shmEntrySize }

def xmShmEntryGet (mh : XmShmHeader) (isWrite : Bool) : Option XmShmEntry :=
  if shmEntryCanGet mh isWrite then some (shmEntryInit mh (shmEntryIndexGet mh isWrite)) else none

/-- `xm_shm_entry_commit`; the entry is cleared. -/
def xmShmEntryCommit (mh : XmShmHeader) (isWrite : Bool) : XmShmHeader × XmShmEntry :=
  (xmShmEntryPosUpdate mh isWrite, ⟨0, 0, 0⟩)

end Xmap.Shm
