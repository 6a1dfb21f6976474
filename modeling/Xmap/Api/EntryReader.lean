import Xmap.Shm.PointerTheorems

/-!
# The entry reader (`xm_entry_reader`)

The native side of `XMapEntryReader`: each call of `read` prepares an iterator if there is none, and takes
one record from it, whose data it copies for Java, or commits the entry.
-/

namespace Xmap.Api

open Xmap.Lib Xmap.Shm

/-- Where `_mmap_address_get` maps an entry of the file, what the memory of the process then holds and where it
can be read, and the capacity of `dataBuffer`. Each mapping has a number; entries are whole pages, and the
addresses of a process are below 2^63. -/
structure ReaderEnv (file : Mem) (mh : XmShmHeader) where
  addressGet : Nat → Nat → Nat
  mem : Nat → Nat → Mem
  readable : Nat → Nat → Nat → Bool
  cap : Nat
  page_le : 4096 ≤ mh.shmEntrySize
  cap_lt : cap < 2 ^ 31
  finish_le : ∀ k offset, addressGet k offset + mh.shmEntrySize + 4096 ≤ 2 ^ 63
  shows : ∀ k offset i, i < mh.shmEntrySize → mem k offset (addressGet k offset + i) = file (offset + i)
  readable_entry : ∀ k offset i, i < mh.shmEntrySize → readable k offset (addressGet k offset + i) = true

/-- `xm_shm_entry_record_reader_context_t`, with the number of entries mapped so far. -/
structure ReaderContext where
  shmFmt : XmShmReader
  eiter : Bool
  maps : Nat

/-- The header of the file, and the context. -/
structure ReaderState where
  header : XmShmHeader
  context : ReaderContext

/-! ## The copy for Java (`xm_jni_util`) -/

/-- A word of 64 bits as a `long`. -/
def longOf (n : Nat) : Int := if n < 2 ^ 63 then n else n - 2 ^ 64

/-- `xm_send_data_to_java`, where it returns. A copy ends the process at the first address that it cannot read
or that is behind the buffer. -/
def xmSendDataToJava (readable : Nat → Bool) (cap data dlen : Nat) : Bool :=
  if (cap : Int) < longOf dlen then true
  -- `memcpy` takes a negative length as it is, 2^63 bytes and more
  else decide (dlen ≤ cap) && (List.range dlen).all fun i => readable (Ptr.add data i)

/-! ## Calls -/

section
variable {file : Mem} {mh : XmShmHeader} (env : ReaderEnv file mh)

def ReaderEnv.entry (k offset : Nat) : Ptr.MappedEntry where
  start := env.addressGet k offset
  finish := env.addressGet k offset + mh.shmEntrySize
  start_le := Nat.le_add_right _ _
  finish_le := (env.finish_le k offset).trans (by decide)

def readOffset (header : XmShmHeader) : Nat := xmShmEntryPosOffset header header.shmReadEntryPos

/-- `_prepare_iter_ok`, with `xm_shm_entry_iterator_prefare`. -/
def prepareIterOk (s : ReaderState) : ReaderContext × Bool :=
  if s.context.eiter then (s.context, true)
  else if shmEntryCanGet s.header false then
    let it := Ptr.iteratorOn (env.mem s.context.maps (readOffset s.header)) s.context.shmFmt
      ((env.entry s.context.maps (readOffset s.header)).toEntry (shmEntryIndexGet s.header false))
    ({ shmFmt := it.1, eiter := it.2, maps := s.context.maps + 1 }, it.2)
  else ({ s.context with shmFmt := { s.context.shmFmt with shmIter := ⟨false, 0⟩ } }, false)

/-- `xm_shm_entry_iterator_commit`, after which `read` forgets the iterator. -/
def iteratorCommit (header : XmShmHeader) (c : ReaderContext) : ReaderState :=
  if c.shmFmt.shmIter.hasHeader then
    let e := xmShmEntryCommit header false
    { header := e.1
      context := { c with
        shmFmt := ⟨{ c.shmFmt.curHeader with shmEntry := e.2 }, ⟨false, 0⟩⟩, eiter := false } }
  else { header := header, context := { c with eiter := false } }

/-- `XMapEntryReader.read`: its value, and the place in the entry of the record that it delivers. There is no
result where the process ends. -/
def read (s : ReaderState) : Option (ReaderState × Int × Option Nat) :=
  let p := prepareIterOk env s
  if p.2 then
    let k := p.1.maps - 1
    let offset := readOffset s.header
    let r := Ptr.recordNext (env.mem k offset) p.1.shmFmt
    let c := { p.1 with shmFmt := r.1 }
    match r.2 with
    | none => some (iteratorCommit s.header c, -1, none)
    | some record =>
      let bf := p.1.shmFmt.curHeader.bfmt
      if record.dataLen = 0 ∨ xmSendDataToJava (env.readable k offset) env.cap record.data record.dataLen then
        some ({ s with context := c }, 0, some ((bf.pos + 2 ^ 64 - bf.start) % 2 ^ 64))
      else none
  else some ({ s with context := p.1 }, -2, none)

/-- The state after some calls of `read`, and the places of the records that they deliver. -/
def reads : Nat → ReaderState → Option (ReaderState × List Nat)
  | 0, s => some (s, [])
  | n + 1, s =>
    match read env s with
    | none => none
    | some (t, _, place) => (reads n t).map fun r => (r.1, place.toList ++ r.2)

/-- No iterator is left from before. -/
def ReaderState.idle (header : XmShmHeader) (shmFmt : XmShmReader) (maps : Nat) : ReaderState :=
  { header := header, context := { shmFmt := shmFmt, eiter := false, maps := maps } }

end

end Xmap.Api
