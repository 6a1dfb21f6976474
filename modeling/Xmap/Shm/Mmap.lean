import Xmap.Shm.Stream

/-!
# Mapped files (`xm_shm_mmap`)

The sizes of the file and of its entries are rounded up to pages, in words of 64 bits.
-/

namespace Xmap.Shm

open Xmap.Lib

/-- `xm_align_up` to a power of two, on `uint64_t`. -/
def xmAlignUp64 (d shift : Nat) : Nat := ((d + (2 ^ shift - 1)) % 2 ^ 64) >>> shift <<< shift

/-- `xm_shm_mmap_create` of a file to write to, without private data. The file is new and gets its length; one that
exists is not resized, and where it is shorter the mapping behind it may fail later. An entry size that wraps to 0
stops the process in `_shm_entries_count_get`; here it leaves no entries. -/
def xmShmMmapCreate (fsize entrySize pageShift : Nat) : XmShmHeader :=
  let size := xmAlignUp64 fsize pageShift
  let entrySize := xmAlignUp64 entrySize pageShift
  let hsize := xmAlignUp64 shmHeaderSize pageShift
  { shmEntriesStart := hsize
    shmEntriesCount := (size + 2 ^ 64 - hsize) % 2 ^ 64 / entrySize
    shmEntrySize := entrySize
    shmEntriesCountCur := 0
    shmWriteEntryPos := 0
    shmReadEntryPos := 0 }

theorem xmAlignUp64_eq {d shift : Nat} (h : d + (2 ^ shift - 1) < 2 ^ 64) :
    xmAlignUp64 d shift = xmAlignUp d shift := by
  rw [xmAlignUp64, xmAlignUp, Nat.mod_eq_of_lt h]

/-- Where nothing wraps, the header is the one of `_shm_header_init`. -/
theorem xmShmMmapCreate_eq {fsize entrySize pageShift : Nat} (hpage : pageShift ≤ 32)
    (hfsize : fsize + (2 ^ pageShift - 1) < 2 ^ 64) (hentry : entrySize + (2 ^ pageShift - 1) < 2 ^ 64)
    (hroom : xmAlignUp shmHeaderSize pageShift ≤ xmAlignUp fsize pageShift)
    (hlt : xmAlignUp fsize pageShift < 2 ^ 64) :
    xmShmMmapCreate fsize entrySize pageShift =
      shmHeaderInit (xmAlignUp fsize pageShift) (xmAlignUp entrySize pageShift) pageShift := by
  have hpow : 2 ^ pageShift ≤ 2 ^ 32 := Nat.pow_le_pow_right (by decide) hpage
  have hheader : shmHeaderSize + (2 ^ pageShift - 1) < 2 ^ 64 := by
    rw [shmHeaderSize]
    omega
  have hsub : (xmAlignUp fsize pageShift + 2 ^ 64 - xmAlignUp shmHeaderSize pageShift) % 2 ^ 64 =
      xmAlignUp fsize pageShift - xmAlignUp shmHeaderSize pageShift := by omega
  simp only [xmShmMmapCreate, xmAlignUp64_eq hfsize, xmAlignUp64_eq hentry, xmAlignUp64_eq hheader, hsub,
    shmHeaderInit, shmEntriesCountGet]

/-- The options of the store that `_context_set` accepts, as `uint64_t`, and the page size of the system. -/
structure StoreArgs where
  pageShift : Nat
  fsize : Nat
  fentrySize : Nat
  page_le : pageShift ≤ 32
  fsize_pos : 1 ≤ fsize
  fsize_lt : fsize < 2 ^ 64
  fentry_pos : 1 ≤ fentrySize
  fentry_lt : fentrySize < 2 ^ 64

namespace StoreArgs

variable (args : StoreArgs)

def header : XmShmHeader := xmShmMmapCreate args.fsize args.fentrySize args.pageShift

def start (mem : Mem) : Trace where
  sys := {
    shared := { mem := mem, header := args.header }
    writer := xmShmFormatCreate args.fentrySize
    reader := { curHeader := (xmShmFormatCreate 0).curHeader, shmIter := ⟨false, 0⟩ }
    pc := .prepare }
  accepted := []
  delivered := []
  committed := 0

end StoreArgs

end Xmap.Shm
