import Xmap.Lib.Heap

/-!
# Memory pools (`xm_mpool`)

A pool is a chain of blocks of one size, and a list of large chunks. Addresses are numbers, and 0 is `NULL`; the nodes
of the lists lie in the blocks.
-/

namespace Xmap.Mpool

open Xmap.Lib

def XM_MAX_ALLOC_FROM_POOL : Nat := 4096 - 1
def XM_POOL_ALIGNMENT : Nat := 16
def XM_ALIGNMENT : Nat := 8

def sizeofPoolData : Nat := 32
def sizeofPool : Nat := 64
def sizeofPoolLarge : Nat := 16
def sizeofPoolCleanup : Nat := 24

/-- The block at `addr`, with the `xm_pool_data_t` in its first bytes; `stop` is `end`. -/
structure XmPoolData where
  addr : Nat
  last : Nat
  stop : Nat
  failed : Nat
deriving DecidableEq, Repr

/-- An `xm_pool_large_t` at `node`. -/
structure XmPoolLarge where
  node : Nat
  alloc : Nat
deriving DecidableEq, Repr

/-- An `xm_pool_cleanup_t` at `node`. -/
structure XmPoolCleanup where
  node : Nat
  data : Nat
deriving DecidableEq, Repr

/-- The blocks in the order of their `next`, those before `current` and those from it on. -/
structure XmPool where
  passed : List XmPoolData
  active : List XmPoolData
  max : Nat
  large : List XmPoolLarge
  cleanup : List XmPoolCleanup
deriving DecidableEq, Repr

def XmPool.chain (pool : XmPool) : List XmPoolData := pool.passed ++ pool.active

/-- A pool and the memory of the program. -/
structure PoolState where
  pool : XmPool
  heap : Heap
deriving DecidableEq, Repr

/-- `xm_align_ptr` with `XM_ALIGNMENT`. -/
def alignPtr (p : Nat) : Nat := (p + (XM_ALIGNMENT - 1)) / XM_ALIGNMENT * XM_ALIGNMENT

/-- `(size_t) (p->d.end - m)`. -/
def room (stop m : Nat) : Nat := (stop + 2 ^ 64 - m) % 2 ^ 64

section
variable (A : Allocator)

/-! ## Creation -/

def xmPoolCreate (size : Nat) (heap : Heap) : Option XmPool × Heap :=
  let r := heap.memalign A XM_POOL_ALIGNMENT size
  if r.1 = 0 then (none, r.2)
  else
    let left := (size + 2 ^ 64 - sizeofPool) % 2 ^ 64
    (some { passed := [], active := [⟨r.1, r.1 + sizeofPool, r.1 + size, 0⟩],
            max := if left < XM_MAX_ALLOC_FROM_POOL then left else XM_MAX_ALLOC_FROM_POOL,
            large := [], cleanup := [] }, r.2)

/-! ## Small chunks -/

/-- A step of the loop over the blocks that had no room, on the blocks before `current` and those from it on. -/
def countFailure (c : List XmPoolData × List XmPoolData) (p : XmPoolData) : List XmPoolData × List XmPoolData :=
  let p' := { p with failed := p.failed + 1 }
  if 4 < p.failed then (c.1 ++ c.2 ++ [p'], []) else (c.1, c.2 ++ [p'])

/-- The size of the first block. -/
def XmPool.psize (pool : XmPool) : Nat :=
  match pool.chain with
  | [] => 0
  | p :: _ => room p.stop p.addr

/-- The pool with a block at `a` behind the others, from which a chunk is taken. The loop does not count the last
block of the chain. -/
def addBlock (a size : Nat) (pool : XmPool) : XmPool :=
  let block : XmPoolData := ⟨a, alignPtr (a + sizeofPoolData) + size, a + pool.psize, 0⟩
  let c := pool.active.dropLast.foldl countFailure (pool.passed, [])
  { pool with passed := c.1, active := c.2 ++ pool.active.getLast?.toList ++ [block] }

def xmPallocBlock (size : Nat) (s : PoolState) : Nat × PoolState :=
  let r := s.heap.memalign A XM_POOL_ALIGNMENT s.pool.psize
  if r.1 = 0 then (0, { s with heap := r.2 })
  else (alignPtr (r.1 + sizeofPoolData), ⟨addBlock r.1 size s.pool, r.2⟩)

/-- Where a chunk would start in a block. -/
def placeAt (align : Bool) (last : Nat) : Nat := if align then alignPtr last else last

/-- The loop of `xm_palloc_small`: the address, and the blocks after it. -/
def findRoom (size : Nat) (align : Bool) : List XmPoolData → Option (Nat × List XmPoolData)
  | [] => none
  | p :: ps =>
    let m := placeAt align p.last
    if size ≤ room p.stop m then some (m, { p with last := m + size } :: ps)
    else (findRoom size align ps).map fun r => (r.1, p :: r.2)

def xmPallocSmall (size : Nat) (align : Bool) (s : PoolState) : Nat × PoolState :=
  match findRoom size align s.pool.active with
  | some (m, active) => (m, { s with pool := { s.pool with active := active } })
  | none => xmPallocBlock A size s

/-! ## Large chunks -/

/-- The loop over the nodes that may be free: it looks at the given number of them. -/
def reuseNode (p : Nat) : Nat → List XmPoolLarge → Option (List XmPoolLarge)
  | 0, _ => none
  | _, [] => none
  | n + 1, l :: ls => if l.alloc = 0 then some ({ l with alloc := p } :: ls) else (reuseNode p n ls).map (l :: ·)

/-- A new node for a chunk, which is freed where there is no memory for the node. -/
def pushLarge (p : Nat) (s : PoolState) : Option (Nat × PoolState) :=
  let r := xmPallocSmall A sizeofPoolLarge true s
  if r.1 = 0 then (r.2.heap.free p).map fun heap => (0, { r.2 with heap := heap })
  else some (p, { r.2 with pool := { r.2.pool with large := ⟨r.1, p⟩ :: r.2.pool.large } })

def xmPallocLarge (size : Nat) (s : PoolState) : Option (Nat × PoolState) :=
  let r := s.heap.malloc A size
  if r.1 = 0 then some (0, { s with heap := r.2 })
  else
    match reuseNode r.1 5 s.pool.large with
    | some large => some (r.1, ⟨{ s.pool with large := large }, r.2⟩)
    | none => pushLarge A r.1 { s with heap := r.2 }

def xmPmemalign (size alignment : Nat) (s : PoolState) : Option (Nat × PoolState) :=
  let r := s.heap.memalign A alignment size
  if r.1 = 0 then some (0, { s with heap := r.2 }) else pushLarge A r.1 { s with heap := r.2 }

/-! ## Requests -/

/-- `xm_palloc` and `xm_pnalloc`, with and without alignment. -/
def pallocAligned (align : Bool) (size : Nat) (s : PoolState) : Option (Nat × PoolState) :=
  if size ≤ s.pool.max then some (xmPallocSmall A size align s) else xmPallocLarge A size s

def xmPalloc : Nat → PoolState → Option (Nat × PoolState) := pallocAligned A true

def xmPnalloc : Nat → PoolState → Option (Nat × PoolState) := pallocAligned A false

/-- `xm_pcalloc`, but for the zeros that it writes. -/
def xmPcalloc : Nat → PoolState → Option (Nat × PoolState) := xmPalloc A

/-- The nodes with the first of the given chunk cleared. -/
def clearAlloc (p : Nat) : List XmPoolLarge → Option (List XmPoolLarge)
  | [] => none
  | l :: ls => if p = l.alloc then some ({ l with alloc := 0 } :: ls) else (clearAlloc p ls).map (l :: ·)

/-- `xm_pfree`, with -1 for a chunk that is not in the list. -/
def xmPfree (p : Nat) (s : PoolState) : Option (Int × PoolState) :=
  match clearAlloc p s.pool.large with
  | none => some (-1, s)
  | some large => (s.heap.free p).map fun heap => (0, ⟨{ s.pool with large := large }, heap⟩)

def xmPoolCleanupAdd (size : Nat) (s : PoolState) : Option (Nat × PoolState) :=
  (xmPalloc A sizeofPoolCleanup s).bind fun (c, s) =>
    if c = 0 then some (0, s)
    else if size = 0 then some (c, { s with pool := { s.pool with cleanup := ⟨c, 0⟩ :: s.pool.cleanup } })
    else
      (xmPalloc A size s).map fun (data, s) =>
        if data = 0 then (0, s)
        else (c, { s with pool := { s.pool with cleanup := ⟨c, data⟩ :: s.pool.cleanup } })

end

/-! ## The end -/

/-- The chunks of the list of large chunks. -/
def XmPool.allocs (pool : XmPool) : List Nat := (pool.large.map XmPoolLarge.alloc).filter (· ≠ 0)

def xmPoolReset (s : PoolState) : Option PoolState :=
  (s.heap.freeAll s.pool.allocs).map fun heap =>
    { pool := { s.pool with
        passed := [],
        active := s.pool.chain.map fun p => { p with last := p.addr + sizeofPool, failed := 0 },
        large := [] }
      heap := heap }

/-- The walk over the cleanups, the last one added first, with what the handler of each does. -/
def runCleanups (handler : XmPoolCleanup → Heap → Heap) (cleanup : List XmPoolCleanup) (heap : Heap) : Heap :=
  cleanup.foldl (fun heap c => handler c heap) heap

/-- `xm_pool_destroy`. It finds the cleanups where their nodes are. -/
def xmPoolDestroy (handler : XmPoolCleanup → Heap → Heap) (s : PoolState) : Option Heap :=
  ((runCleanups handler s.pool.cleanup s.heap).freeAll s.pool.allocs).bind fun heap =>
    heap.freeAll (s.pool.chain.map XmPoolData.addr)

end Xmap.Mpool
