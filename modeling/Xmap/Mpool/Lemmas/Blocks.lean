import Xmap.Lib.Arena
import Xmap.Mpool.Pool

/-!
# Blocks and nodes

What the loops over the chain of blocks and over the list of large chunks do to the arena of a pool.
-/

namespace Xmap.Mpool

open Xmap.Lib Chunk

def XmPoolData.extent (p : XmPoolData) : Extent := ⟨p.addr, p.last, p.stop⟩

def XmPool.blocks (pool : XmPool) : List Extent := pool.chain.map XmPoolData.extent

/-- The head of each block, and the rest of the `xm_pool_t` in the first. -/
def headersOf (addrs : List Nat) : List Chunk :=
  addrs.head?.toList.map (fun a => ⟨a + sizeofPoolData, sizeofPool - sizeofPoolData⟩) ++
    addrs.map fun a => ⟨a, sizeofPoolData⟩

def nodesOf (large : List XmPoolLarge) : List Chunk := large.map fun l => ⟨l.node, sizeofPoolLarge⟩

/-- What the pool keeps for itself. -/
def XmPool.inner (pool : XmPool) : List Chunk := headersOf (pool.blocks.map Extent.addr) ++ nodesOf pool.large

/-- A pool in order: it has blocks of `size`, and it keeps and has handed out what it should, with some chunks more
kept than it has headers and nodes. -/
structure PoolOk (size : Nat) (other kept live : List Chunk) (s : PoolState) : Prop where
  laid : Laid size XM_POOL_ALIGNMENT other (kept ++ s.pool.inner) live s.pool.blocks s.pool.allocs s.heap
  active : s.pool.active ≠ []
  max : s.pool.max + sizeofPool ≤ size
  dvd : XM_ALIGNMENT ∣ size

section
variable {A : Allocator} {size n m p : Nat} {align : Bool} {other kept live : List Chunk} {s : PoolState}
  {ps ps' : List XmPoolData} {ls ls' : List XmPoolLarge} {addrs : List Nat}

/-! ## Arithmetic -/

theorem le_alignPtr (p : Nat) : p ≤ alignPtr p := by
  simp only [alignPtr, XM_ALIGNMENT]
  omega

theorem dvd_alignPtr (p : Nat) : XM_ALIGNMENT ∣ alignPtr p := Nat.dvd_mul_left _ _

theorem alignPtr_le {q : Nat} (h : p ≤ q) (hq : XM_ALIGNMENT ∣ q) : alignPtr p ≤ q := by
  simp only [alignPtr, XM_ALIGNMENT] at hq ⊢
  omega

theorem alignPtr_of_dvd (h : XM_ALIGNMENT ∣ p) : alignPtr p = p := le_antisymm (alignPtr_le le_rfl h) (le_alignPtr p)

theorem room_eq {stop : Nat} (h : m ≤ stop) (hs : stop < 2 ^ 64) : room stop m = stop - m := by
  rw [room]
  omega

/-! ## The chain -/

theorem placeAt_spec {last stop : Nat} (h : last ≤ stop) (hdvd : XM_ALIGNMENT ∣ stop) (align : Bool) :
    last ≤ placeAt align last ∧ placeAt align last ≤ stop ∧ (align = true → XM_ALIGNMENT ∣ placeAt align last) := by
  cases align with
  | true => exact ⟨le_alignPtr _, alignPtr_le h hdvd, fun _ => dvd_alignPtr _⟩
  | false => exact ⟨le_rfl, h, fun ha => by cases ha⟩

/-- A block with room is used further. -/
theorem findRoom_spec (hps : ∀ p ∈ ps, p.last ≤ p.stop ∧ XM_ALIGNMENT ∣ p.stop ∧ p.stop < 2 ^ 64)
    (h : findRoom n align ps = some (m, ps')) : ∃ pre p post, ps = pre ++ p :: post ∧
      ps' = pre ++ { p with last := m + n } :: post ∧ p.last ≤ m ∧ m + n ≤ p.stop ∧
        (align = true → XM_ALIGNMENT ∣ m) := by
  induction ps generalizing ps' with
  | nil => simp [findRoom] at h
  | cons p ps ih =>
    obtain ⟨⟨hle, hdvd, hlt⟩, hrest⟩ := List.forall_mem_cons.mp hps
    obtain ⟨hge, hstop, halign⟩ := placeAt_spec hle hdvd align
    simp only [findRoom] at h
    split at h
    · next hroom =>
      rw [room_eq hstop hlt] at hroom
      cases h
      exact ⟨[], p, ps, rfl, rfl, hge, by omega, halign⟩
    · obtain ⟨⟨m', qs⟩, hq, heq⟩ := Option.map_eq_some_iff.mp h
      cases heq
      obtain ⟨pre, p', post, rfl, hqs, hspec⟩ := ih hrest hq
      exact ⟨p :: pre, p', post, rfl, congrArg (p :: ·) hqs, hspec⟩

/-- The loop over blocks without room counts in each, and no block is lost. -/
theorem countFailure_foldl (ps : List XmPoolData) (c : List XmPoolData × List XmPoolData) :
    (ps.foldl countFailure c).1 ++ (ps.foldl countFailure c).2 =
      c.1 ++ c.2 ++ ps.map fun p => { p with failed := p.failed + 1 } := by
  induction ps generalizing c with
  | nil => simp
  | cons p ps ih =>
    rw [List.foldl_cons, ih, countFailure]
    split <;> simp

theorem dropLast_append_getLast? (ps : List XmPoolData) : ps.dropLast ++ ps.getLast?.toList = ps := by
  cases ps using List.reverseRecOn with
  | nil => rfl
  | append_singleton ps p => simp

/-- The new block comes behind the others. -/
theorem addBlock_blocks (a n : Nat) (pool : XmPool) :
    (addBlock a n pool).blocks = pool.blocks ++ [⟨a, alignPtr (a + sizeofPoolData) + n, a + pool.psize⟩] := by
  have hchain := countFailure_foldl pool.active.dropLast (pool.passed, [])
  have hextent : (pool.active.dropLast.map fun p => { p with failed := p.failed + 1 }).map XmPoolData.extent =
      pool.active.dropLast.map XmPoolData.extent := by
    rw [List.map_map]
    rfl
  rw [XmPool.blocks, XmPool.chain, addBlock]
  simp only [← List.append_assoc, hchain]
  rw [List.append_nil, List.map_append, List.map_append, List.map_append, hextent, ← List.map_append,
    ← List.map_append, List.append_assoc pool.passed, dropLast_append_getLast?]
  rfl

theorem addBlock_active (a n : Nat) (pool : XmPool) : (addBlock a n pool).active ≠ [] := by simp [addBlock]

/-! ## The list of large chunks -/

def allocsOf (ls : List XmPoolLarge) : List Nat := (ls.map XmPoolLarge.alloc).filter (· ≠ 0)

theorem allocsOf_cons_zero {l : XmPoolLarge} (h : l.alloc = 0) : allocsOf (l :: ls) = allocsOf ls := by
  simp [allocsOf, h]

theorem allocsOf_cons {l : XmPoolLarge} (h : l.alloc ≠ 0) : allocsOf (l :: ls) = l.alloc :: allocsOf ls := by
  simp [allocsOf, h]

theorem allocsOf_cons_congr {l : XmPoolLarge} (h : (allocsOf ls').Perm (p :: allocsOf ls)) :
    (allocsOf (l :: ls')).Perm (p :: allocsOf (l :: ls)) := by
  by_cases hl : l.alloc = 0
  · rwa [allocsOf_cons_zero hl, allocsOf_cons_zero hl]
  · rw [allocsOf_cons hl, allocsOf_cons hl]
    exact (h.cons _).trans (.swap _ _ _)

theorem reuseNode_spec {k : Nat} (hp : p ≠ 0) (h : reuseNode p k ls = some ls') :
    nodesOf ls' = nodesOf ls ∧ (allocsOf ls').Perm (p :: allocsOf ls) := by
  induction ls generalizing k ls' with
  | nil => cases k <;> simp [reuseNode] at h
  | cons l ls ih =>
    cases k with
    | zero => simp [reuseNode] at h
    | succ k =>
      simp only [reuseNode] at h
      split at h
      · next hl =>
        cases h
        refine ⟨rfl, ?_⟩
        rw [allocsOf_cons_zero hl, allocsOf_cons (by exact hp)]
      · obtain ⟨ms, hms, rfl⟩ := Option.map_eq_some_iff.mp h
        obtain ⟨hnodes, hallocs⟩ := ih hms
        exact ⟨congrArg (_ :: ·) hnodes, allocsOf_cons_congr hallocs⟩

/-- A chunk that is cleared is taken from the list. -/
theorem clearAlloc_spec (h : clearAlloc p ls = some ls') :
    nodesOf ls' = nodesOf ls ∧ if p = 0 then ls' = ls else (allocsOf ls).Perm (p :: allocsOf ls') := by
  induction ls generalizing ls' with
  | nil => simp [clearAlloc] at h
  | cons l ls ih =>
    simp only [clearAlloc] at h
    split at h
    · next hl =>
      cases h
      refine ⟨rfl, ?_⟩
      subst hl
      split
      · next hzero => rw [← hzero]
      · next hne => rw [allocsOf_cons hne, allocsOf_cons_zero rfl]
    · obtain ⟨ms, hms, rfl⟩ := Option.map_eq_some_iff.mp h
      obtain ⟨hnodes, hallocs⟩ := ih hms
      refine ⟨congrArg (_ :: ·) hnodes, ?_⟩
      split at hallocs
      · next hzero => rw [if_pos hzero, hallocs]
      · next hne =>
        rw [if_neg hne]
        exact allocsOf_cons_congr hallocs

end

end Xmap.Mpool
