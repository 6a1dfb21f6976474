import Xmap.Lib.Steps
import Xmap.Mpool.Lemmas.Requests

/-!
# Theorems on pools

What a pool hands out over any requests stays apart, and frees of the pool are of what is in use.
-/

namespace Xmap.Mpool

open Xmap.Lib Chunk

/-! ## Runs -/

inductive PoolAction where
  | palloc (size : Nat)
  | pnalloc (size : Nat)
  | pcalloc (size : Nat)
  | pmemalign (size alignment : Nat)
  | pfree (p : Nat)
  | reset
  | cleanupAdd (size : Nat)
deriving DecidableEq, Repr

/-- A pool, with what its callers hold. -/
structure PoolSys extends PoolState where
  live : List Chunk
deriving DecidableEq

/-- What the callers hold after a request for a chunk. -/
def PoolSys.after (s : PoolSys) (size : Nat) (r : Nat × PoolState) : PoolSys :=
  ⟨r.2, if r.1 = 0 then s.live else ⟨r.1, size⟩ :: s.live⟩

/-- A cleanup and its data, when there is one. -/
def cleanupChunks (size : Nat) (r : Nat × PoolState) : List Chunk :=
  if r.1 = 0 then []
  else
    match r.2.pool.cleanup with
    | [] => []
    | e :: _ => (if size = 0 then [] else [⟨e.data, size⟩]) ++ [⟨e.node, sizeofPoolCleanup⟩]

/-- A call of the program. There is no next state where something is freed that is not in use. -/
def poolStep (A : Allocator) (s : PoolSys) : PoolAction → Option PoolSys
  | .palloc size => (xmPalloc A size s.toPoolState).map (s.after size)
  | .pnalloc size => (xmPnalloc A size s.toPoolState).map (s.after size)
  | .pcalloc size => (xmPcalloc A size s.toPoolState).map (s.after size)
  | .pmemalign size alignment => (xmPmemalign A size alignment s.toPoolState).map (s.after size)
  | .pfree p =>
      (xmPfree p s.toPoolState).map fun r => ⟨r.2, if r.1 = 0 then s.live.filter fun c => c.addr ≠ p else s.live⟩
  | .reset => (xmPoolReset s.toPoolState).map fun t => ⟨t, []⟩
  | .cleanupAdd size => (xmPoolCleanupAdd A size s.toPoolState).map fun r => ⟨r.2, cleanupChunks size r ++ s.live⟩

section
variable {A : Allocator} {size : Nat} {other : List Chunk} {s t : PoolSys} {a : PoolAction} {heap heap' : Heap}
  {pool : XmPool}

/-! ## Steps -/

/-- A pool in order, with what its callers hold. -/
def PoolSys.Ok (size : Nat) (other : List Chunk) (s : PoolSys) : Prop := PoolOk size other [] s.live s.toPoolState

theorem PoolSys.after_ok {n al : Nat} {cleanup : List XmPoolCleanup} {r : Nat × PoolState}
    (hr : Returned size n al other s.live cleanup r) : (s.after n r).Ok size other := by
  rw [PoolSys.Ok, PoolSys.after]
  by_cases hnull : r.1 = 0
  · rw [if_pos hnull]
    exact hr.null hnull
  · rw [if_neg hnull]
    exact hr.chunk hnull

theorem PoolOk.of_cleanup {live : List Chunk} {s : PoolState} (hs : PoolOk size other [] live s)
    (cleanup : List XmPoolCleanup) :
    PoolOk size other [] live { s with pool := { s.pool with cleanup := cleanup } } :=
  ⟨hs.laid, hs.active, hs.max, hs.dvd⟩

theorem PoolOk.xmPoolCleanupAdd {live : List Chunk} {s : PoolState} (hs : PoolOk size other [] live s) (n : Nat) :
    ∃ r, xmPoolCleanupAdd A n s = some r ∧ PoolOk size other [] (cleanupChunks n r ++ live) r.2 ∧
      (r.1 = 0 → r.2.pool.cleanup = s.pool.cleanup) ∧
        (r.1 ≠ 0 → ∃ data, r.2.pool.cleanup = ⟨r.1, data⟩ :: s.pool.cleanup) := by
  obtain ⟨r, hr, hret⟩ := hs.pallocAligned (A := A) true sizeofPoolCleanup
  have hr : xmPalloc A sizeofPoolCleanup s = some r := hr
  simp only [Mpool.xmPoolCleanupAdd, hr, Option.bind_some]
  by_cases hnull : r.1 = 0
  · simp only [if_pos hnull]
    exact ⟨_, rfl, hret.null hnull, fun _ => hret.cleanup, fun hne => absurd rfl hne⟩
  · simp only [if_neg hnull]
    have hok := hret.chunk hnull
    by_cases hn : n = 0
    · simp only [if_pos hn]
      refine ⟨_, rfl, ?_, fun hzero => absurd hzero hnull, fun _ => ⟨0, by rw [← hret.cleanup]⟩⟩
      simp only [cleanupChunks, if_neg hnull, if_pos hn]
      exact hok.of_cleanup _
    · obtain ⟨q, hq, hqret⟩ := hok.pallocAligned (A := A) true n
      have hq : xmPalloc A n r.2 = some q := hq
      simp only [if_neg hn, hq, Option.map_some]
      refine ⟨_, rfl, ?_⟩
      by_cases hdata : q.1 = 0
      · simp only [if_pos hdata]
        refine ⟨(hqret.null hdata).of_live (List.sublist_cons_self _ _), fun _ => ?_, fun hne => absurd rfl hne⟩
        rw [hqret.cleanup, hret.cleanup]
      · simp only [if_neg hdata]
        refine ⟨?_, fun hzero => absurd hzero hnull, fun _ => ⟨q.1, by rw [hqret.cleanup, hret.cleanup]⟩⟩
        simp only [cleanupChunks, if_neg hnull, if_neg hn]
        exact (hqret.chunk hdata).of_cleanup _

theorem PoolSys.Ok.palloc (hs : s.Ok size other) (align : Bool) (n : Nat) :
    ∃ t, (pallocAligned A align n s.toPoolState).map (s.after n) = some t ∧ t.Ok size other := by
  obtain ⟨r, hr, hret⟩ := PoolOk.pallocAligned (A := A) hs align n
  exact ⟨_, Option.map_eq_some_iff.mpr ⟨r, hr, rfl⟩, s.after_ok hret⟩

/-- No call frees what is not in use, and each keeps the pool in order. -/
theorem PoolSys.Ok.poolStep (hs : s.Ok size other) (a : PoolAction) :
    ∃ t, poolStep A s a = some t ∧ t.Ok size other := by
  cases a with
  | palloc n => exact hs.palloc true n
  | pnalloc n => exact hs.palloc false n
  | pcalloc n => exact hs.palloc true n
  | pmemalign n al =>
    obtain ⟨r, hr, hret⟩ := PoolOk.xmPmemalign (A := A) (n := n) hs al
    exact ⟨_, Option.map_eq_some_iff.mpr ⟨r, hr, rfl⟩, s.after_ok hret⟩
  | pfree p =>
    obtain ⟨r, hr, -, hfreed, hsame⟩ := PoolOk.xmPfree hs p
    refine ⟨_, Option.map_eq_some_iff.mpr ⟨r, hr, rfl⟩, ?_⟩
    rw [PoolSys.Ok]
    by_cases hzero : r.1 = 0
    · rw [if_pos hzero]
      exact hfreed hzero
    · rw [if_neg hzero, hsame hzero]
      exact hs
  | reset =>
    obtain ⟨t, ht, -, hok⟩ := PoolOk.xmPoolReset hs
    exact ⟨_, Option.map_eq_some_iff.mpr ⟨t, ht, rfl⟩, hok⟩
  | cleanupAdd n =>
    obtain ⟨r, hr, hok, -⟩ := PoolOk.xmPoolCleanupAdd (A := A) hs n
    exact ⟨_, Option.map_eq_some_iff.mpr ⟨r, hr, rfl⟩, hok⟩

theorem PoolSys.Ok.of_poolStep (hs : s.Ok size other) (ht : Mpool.poolStep A s a = some t) : t.Ok size other := by
  obtain ⟨u, hu, hok⟩ := hs.poolStep (A := A) a
  rw [ht] at hu
  cases hu
  exact hok

/-! ## Creation -/

theorem laid_nil (size : Nat) (h : heap.Ok) : Laid size XM_POOL_ALIGNMENT heap.chunks [] [] [] [] heap where
  heap := h
  block := by simp
  owned := by simp
  alloc := by simp
  foreign c hc := ⟨hc, by simp⟩
  origin c hc := .inr hc
  apart := by simp
  inner := by simp
  live := by simp

theorem xmPoolCreate_ok (h8 : XM_ALIGNMENT ∣ size) (h64 : sizeofPool ≤ size) (hheap : heap.Ok)
    (hc : xmPoolCreate A size heap = (some pool, heap')) :
    (⟨⟨pool, heap'⟩, []⟩ : PoolSys).Ok size heap.chunks := by
  unfold xmPoolCreate at hc
  by_cases hnull : (heap.memalign A XM_POOL_ALIGNMENT size).1 = 0
  · simp [hnull] at hc
  · obtain ⟨hplace, hchunks⟩ := Heap.memalign_spec hnull
    simp only [if_neg hnull, Prod.mk.injEq, Option.some.injEq] at hc
    obtain ⟨rfl, rfl⟩ := hc
    have hlt : size < 2 ^ 64 := lt_of_le_of_lt (Nat.le_add_left _ _) (A.place_lt hplace)
    have hgrown := (laid_nil size hheap).grow hheap.memalign hchunks (A.place_dvd hplace)
      (w := sizeofPoolData) (le_trans (by decide) h64)
    have hcarved := hgrown.carve (m := (heap.memalign A XM_POOL_ALIGNMENT size).1 + sizeofPoolData)
      (n := sizeofPool - sizeofPoolData) le_rfl (by
        simp only [sizeofPool, sizeofPoolData] at h64 ⊢
        omega)
    constructor
    · exact hcarved
    · simp
    · have hleft : (size + 2 ^ 64 - sizeofPool) % 2 ^ 64 = size - sizeofPool := by
        simp only [sizeofPool] at h64 ⊢
        omega
      simp only [hleft]
      split <;> omega
    · exact h8

end

/-- What holds of a pool in use: what its callers hold, the heads of its blocks and the nodes of its list do not
overlap; all of it lies in memory that the pool has from the heap, where it has taken nothing of others; aligned
requests are aligned; and no call frees what is not in use. -/
structure PoolSafe (A : Allocator) (other : List Chunk) (s : PoolSys) : Prop where
  apart : (s.pool.inner ++ s.live).Pairwise Apart
  inside : ∀ c ∈ s.pool.inner ++ s.live, ∃ d ∈ s.heap.chunks, d ∉ other ∧ c.Inside d
  others : ∀ d ∈ other, d ∈ s.heap.chunks ∧ ∀ c ∈ s.pool.inner ++ s.live, c.Apart d
  aligned : ∀ size r, xmPalloc A size s.toPoolState = some r → XM_ALIGNMENT ∣ r.1
  memaligned : ∀ size al r, xmPmemalign A size al s.toPoolState = some r → al ∣ r.1
  defined : ∀ a, (poolStep A s a).isSome = true

section
variable {A : Allocator} {size : Nat} {other : List Chunk} {s t : PoolSys} {heap heap' : Heap} {pool : XmPool}

theorem PoolSys.Ok.safe (hs : s.Ok size other) : PoolSafe A other s := by
  have hnot : ∀ {d : Chunk}, d.addr ∈ s.pool.blocks.map Extent.addr ++ s.pool.allocs → d ∉ other := by
    intro d hown hd
    exact (hs.laid.foreign d hd).2 hown
  constructor
  · exact hs.laid.apart
  · intro c hc
    obtain ⟨d, hd, hin, hown⟩ := hs.laid.home hc
    exact ⟨d, hd, hnot hown, hin⟩
  · intro d hd
    obtain ⟨hmem, hno⟩ := hs.laid.foreign d hd
    exact ⟨hmem, fun c hc => (hs.laid.apart_of_notMem hmem hno c hc).symm⟩
  · intro n r hr
    obtain ⟨q, hq, hret⟩ := PoolOk.pallocAligned (A := A) hs true n
    have hq : xmPalloc A n s.toPoolState = some q := hq
    rw [hr] at hq
    cases hq
    exact hret.aligned
  · intro n al r hr
    obtain ⟨q, hq, hret⟩ := PoolOk.xmPmemalign (A := A) (n := n) hs al
    rw [hr] at hq
    cases hq
    exact hret.aligned
  · intro a
    obtain ⟨t, ht, -⟩ := hs.poolStep (A := A) a
    rw [ht]
    rfl

theorem poolStates_ok (h8 : XM_ALIGNMENT ∣ size) (h64 : sizeofPool ≤ size) (hheap : heap.Ok)
    (hc : xmPoolCreate A size heap = (some pool, heap')) (as : List PoolAction) :
    ∀ s ∈ states (poolStep A) ⟨⟨pool, heap'⟩, []⟩ as, s.Ok size heap.chunks := by
  apply states_invariant (I := PoolSys.Ok size heap.chunks)
  · exact fun s a t ht hs => hs.of_poolStep ht
  · exact xmPoolCreate_ok h8 h64 hheap hc

theorem heapOk_nil : Heap.Ok ⟨[], 0⟩ where
  nodup := by simp
  apart := by simp
  pos := by simp
  stop_lt := by simp

end

/-- A pool of a size that is a multiple of 8, with an allocator that keeps to its contract. -/
theorem poolStates_safe (A : Allocator) {size : Nat} (h8 : XM_ALIGNMENT ∣ size) (h64 : sizeofPool ≤ size)
    {heap heap' : Heap}
    (hheap : heap.Ok) {pool : XmPool} (hc : xmPoolCreate A size heap = (some pool, heap')) (as : List PoolAction) :
    ∀ s ∈ states (poolStep A) ⟨⟨pool, heap'⟩, []⟩ as, PoolSafe A heap.chunks s :=
  fun s hs => (poolStates_ok h8 h64 hheap hc as s hs).safe

/-- The pool of 1 KiB that the iterator creates, as the first chunk of a heap. -/
def iteratorPool : XmPool := ⟨[], [⟨16, 80, 1040, 0⟩], 960, [], []⟩

/-- A large chunk, two small ones with a cleanup in between, for the second of which the block has no room, and an
aligned chunk. -/
def iteratorRun : List PoolAction := [.palloc 2000, .palloc 900, .cleanupAdd 8, .pnalloc 500, .pmemalign 100 64]

/-- The pool after these calls. -/
def iteratorUsed : PoolSys where
  pool :=
    { iteratorPool with
      active := [⟨16, 1032, 1040, 0⟩, ⟨3072, 3624, 4096, 0⟩]
      large := [⟨3608, 4160⟩, ⟨80, 1056⟩]
      cleanup := [⟨1000, 1024⟩] }
  heap := ⟨[⟨4160, 100⟩, ⟨3072, 1024⟩, ⟨1056, 2000⟩, ⟨16, 1024⟩], 4⟩
  live := [⟨4160, 100⟩, ⟨3104, 500⟩, ⟨1024, 8⟩, ⟨1000, 24⟩, ⟨96, 900⟩, ⟨1056, 2000⟩]

theorem xmPoolCreate_iterator :
    xmPoolCreate bumpAllocator 1024 ⟨[], 0⟩ = (some iteratorPool, ⟨[⟨16, 1024⟩], 1⟩) := rfl

theorem iteratorUsed_mem :
    iteratorUsed ∈ states (poolStep bumpAllocator) ⟨⟨iteratorPool, ⟨[⟨16, 1024⟩], 1⟩⟩, []⟩ iteratorRun := by
  decide +kernel

theorem poolStates_safe_iterator : PoolSafe bumpAllocator [] iteratorUsed :=
  poolStates_safe bumpAllocator (by decide : XM_ALIGNMENT ∣ 1024) (by decide) heapOk_nil xmPoolCreate_iterator
    iteratorRun iteratorUsed iteratorUsed_mem

end Xmap.Mpool
