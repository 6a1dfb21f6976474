import Xmap.Lib.ChunkStream
import Xmap.Lib.Ring
import Xmap.Shm.Lemmas.Encoding

/-!
# The ring refines a stream in chunks

Chunk number `n` stands in entry `n` modulo the number of entries, as a header and the bytes of its
records.
-/

namespace Xmap.Shm

open Xmap.Lib

/-- The bytes of the records of a chunk. -/
def encChunk (c : List ShmRecord) : List UInt8 := c.flatMap encRecord

@[simp] theorem encChunk_append (c d : List ShmRecord) :
    encChunk (c ++ d) = encChunk c ++ encChunk d := List.flatMap_append

@[simp] theorem encChunk_singleton (r : ShmRecord) : encChunk [r] = encRecord r := by
  simp [encChunk]

theorem length_le_encChunk (c : List ShmRecord) : c.length ≤ (encChunk c).length := by
  induction c with
  | nil => exact Nat.zero_le _
  | cons r c ih =>
    rw [show r :: c = [r] ++ c from rfl, encChunk_append, encChunk_singleton, List.length_append,
      List.length_append, length_encRecord, List.length_singleton]
    omega

theorem le_xmAlignUp (d k : Nat) : d ≤ xmAlignUp d k := by
  have := Nat.div_add_mod (d + (2 ^ k - 1)) (2 ^ k)
  have hlt := Nat.mod_lt (d + (2 ^ k - 1)) (Nat.two_pow_pos k)
  rw [xmAlignUp, Nat.shiftRight_eq_div_pow, Nat.shiftLeft_eq, Nat.mul_comm]
  omega

theorem xmAlignUp_le {d k n : Nat} (hk : k ≤ n) (hd : d ≤ 2 ^ n) : xmAlignUp d k ≤ 2 ^ n := by
  obtain ⟨j, rfl⟩ : ∃ j, n = k + j := ⟨n - k, by omega⟩
  rw [xmAlignUp, Nat.shiftRight_eq_div_pow, Nat.shiftLeft_eq, pow_add, Nat.mul_comm (2 ^ k)]
  refine Nat.mul_le_mul_right _ (Nat.le_of_lt_succ (Nat.div_lt_of_lt_mul ?_))
  rw [pow_add] at hd
  rw [Nat.mul_succ]
  have := Nat.two_pow_pos k
  omega

namespace ShmConf

variable (conf : ShmConf)

def count : Nat := conf.header.shmEntriesCount

def size : Nat := conf.header.shmEntrySize

/-- Where entry `i` starts. -/
def addr (i : Nat) : Nat := xmShmEntryPosOffset conf.header i

theorem fentrySize_le : conf.fentrySize ≤ conf.size := le_xmAlignUp _ _

theorem size_le : conf.size ≤ 2 ^ 32 := xmAlignUp_le conf.page_le conf.entry_lt.le

theorem count_lt : conf.count < 2 ^ 64 := by
  have hle : conf.count ≤ xmAlignUp conf.fsize conf.pageShift :=
    (Nat.div_le_self _ _).trans (Nat.sub_le _ _)
  exact lt_of_le_of_lt hle conf.fsize_lt

variable {conf}

theorem addr_disjoint {i j : Nat} (h : i ≠ j) :
    conf.addr i + conf.size ≤ conf.addr j ∨ conf.addr j + conf.size ≤ conf.addr i := by
  have hlt : ∀ a b, a < b → conf.addr a + conf.size ≤ conf.addr b := by
    intro a b hab
    have := Nat.mul_le_mul_left conf.size hab
    rw [Nat.mul_succ] at this
    show conf.size * a + _ + conf.size ≤ conf.size * b + _
    omega
  rcases Nat.lt_or_gt_of_ne h with hij | hij
  · exact Or.inl (hlt i j hij)
  · exact Or.inr (hlt j i hij)

variable (conf)

/-- The header after `n` chunks were released, with `len` in use. -/
def headerAt (n len : Nat) : XmShmHeader :=
  { conf.header with
    shmEntriesCountCur := len
    shmWriteEntryPos := slot conf.count n len
    shmReadEntryPos := slot conf.count n 0 }

end ShmConf

/-! ## The relation -/

section
variable (conf : ShmConf)

/-- A committed chunk in entry `i`. -/
structure Stored (m : Mem) (i : Nat) (c : List ShmRecord) : Prop where
  le_size : 20 + (encChunk c).length ≤ conf.size
  holds : m.Holds (conf.addr i) (encHeader c.length (encChunk c).length ++ encChunk c)

/-- The writer's chunk in entry `i`, behind the place of its header. -/
structure Writing (m : Mem) (i : Nat) (fmt : XmShmFormat) (c : List ShmRecord) : Prop where
  hasHeader : fmt.hasHeader = true
  bfmt : fmt.curHeader.bfmt =
    ⟨conf.addr i, conf.addr i + (20 + (encChunk c).length), conf.addr i + conf.size⟩
  le_size : 20 + (encChunk c).length ≤ conf.size
  magic : fmt.curHeader.magic = FIMAGIC
  majorVersion : fmt.curHeader.majorVersion = MAJOR_VERSION
  minorVersion : fmt.curHeader.minorVersion = MINJOR_VERSION
  entriesNumber : fmt.curHeader.entriesNumber = c.length
  entriesSize : fmt.curHeader.entriesSize = (encChunk c).length
  holds : m.Holds (conf.addr i + 20) (encChunk c)

def WriterAt (m : Mem) (i : Nat) (fmt : XmShmFormat) : Option (List ShmRecord) → Prop
  | none => fmt.hasHeader = false
  | some c => Writing conf m i fmt c

/-- The reader stands behind `k` records of the chunk in entry `i`. -/
structure Reading (i : Nat) (rd : XmShmReader) (c : List ShmRecord) (k : Nat) : Prop where
  hasHeader : rd.shmIter.hasHeader = true
  entriesCount : rd.shmIter.entriesCount = k
  entriesNumber : rd.curHeader.entriesNumber = c.length
  bfmt : rd.curHeader.bfmt = ⟨conf.addr i,
    conf.addr i + (20 + (encChunk (c.take k)).length), conf.addr i + conf.size⟩

def ReaderAt (i : Nat) (rd : XmShmReader) (queue : List (List ShmRecord)) (pc : ReaderPc) :
    Cursor → Prop
  | .idle => pc = .prepare
  | .reading k => pc = .next ∧ Reading conf i rd (queue.headD []) k
  | .finished => pc = .commit ∧ rd.shmIter.hasHeader = true

variable {conf} in
/-- The reader does not see chunks behind the one it reads. -/
theorem ReaderAt.append {i : Nat} {rd : XmShmReader} {queue : List (List ShmRecord)} {pc : ReaderPc}
    {r : Cursor} (h : ReaderAt conf i rd queue pc r) (hf : r.Fits queue)
    (more : List (List ShmRecord)) : ReaderAt conf i rd (queue ++ more) pc r := by
  cases r with
  | idle => exact h
  | reading k =>
    cases queue with
    | nil => obtain ⟨c, hc, _⟩ := hf; cases hc
    | cons c queue => exact h
  | finished => exact h

structure Refines (s : Sys) (a : ChunkStream ShmRecord) : Prop where
  header : s.shared.header = conf.headerAt a.released.length a.queue.length
  le_count : a.queue.length ≤ conf.count
  room : a.current ≠ none → a.queue.length < conf.count
  entrySize : s.writer.entrySize = conf.fentrySize
  stored : ∀ j c, a.queue[j]? = some c →
    Stored conf s.shared.mem (slot conf.count a.released.length j) c
  writer : WriterAt conf s.shared.mem (slot conf.count a.released.length a.queue.length) s.writer
    a.current
  reader : ReaderAt conf (slot conf.count a.released.length 0) s.reader a.queue s.pc a.cursor

end

section
variable {conf : ShmConf} {m : Mem} {i j : Nat} {c : List ShmRecord} {bs : List UInt8}

theorem Stored.write (hs : Stored conf m i c) (hij : i ≠ j) {b : Nat} (hb : conf.addr j ≤ b)
    (hlen : b + bs.length ≤ conf.addr j + conf.size) : Stored conf (m.write b bs) i c where
  le_size := hs.le_size
  holds := by
    refine hs.holds.write ?_
    have := hs.le_size
    rw [List.length_append, length_encHeader]
    have hd : conf.addr i + conf.size ≤ conf.addr j ∨ conf.addr j + conf.size ≤ conf.addr i :=
      ShmConf.addr_disjoint hij
    rcases hd with hd | hd
    · exact Or.inl (by omega)
    · exact Or.inr (by omega)

theorem Refines.init (mem : Mem) : Refines conf (conf.init mem) ChunkStream.empty where
  header := by
    simp only [ShmConf.headerAt, slot]
    rfl
  le_count := Nat.zero_le _
  room h := absurd rfl h
  entrySize := Nat.mod_eq_of_lt conf.entry_lt
  stored j c hj := by cases hj
  writer := rfl
  reader := rfl

end

end Xmap.Shm
