import Xmap.Mpool.Lemmas.Blocks

/-!
# Requests

Each function of the pool keeps it in order, and what it returns is not in use.
-/

namespace Xmap.Mpool

open Xmap.Lib Chunk

section
variable {A : Allocator} {size n m p : Nat} {align : Bool} {other kept live : List Chunk} {s t : PoolState}
  {h : Heap} {c : Chunk}

theorem PoolOk.of_live {live' : List Chunk} (hs : PoolOk size other kept live s) (hsub : live'.Sublist live) :
    PoolOk size other kept live' s where
  laid := hs.laid.of_live hsub
  active := hs.active
  max := hs.max
  dvd := hs.dvd

theorem PoolOk.handOut (hs : PoolOk size other (c :: kept) live s) : PoolOk size other kept (c :: live) s where
  laid := hs.laid.handOut
  active := hs.active
  max := hs.max
  dvd := hs.dvd

/-! ## Small chunks -/

theorem PoolOk.block_facts (hs : PoolOk size other kept live s) {d : XmPoolData} (hd : d ∈ s.pool.chain) :
    0 < d.addr ∧ d.addr ≤ d.last ∧ d.last ≤ d.stop ∧ d.stop = d.addr + size ∧ XM_ALIGNMENT ∣ d.stop ∧
      d.stop < 2 ^ 64 := by
  obtain ⟨hmem, hstop, hdvd, hge, hle⟩ := hs.laid.block d.extent (List.mem_map_of_mem hd)
  have haddr : XM_ALIGNMENT ∣ d.addr := Nat.dvd_trans (by decide) hdvd
  have hstop : d.stop = d.addr + size := hstop
  refine ⟨hs.laid.heap.pos _ hmem, hge, hle, hstop, ?_, ?_⟩
  · rw [hstop]
    exact Nat.dvd_add haddr hs.dvd
  · rw [hstop]
    exact hs.laid.heap.stop_lt _ hmem

theorem PoolOk.chain_ne (hs : PoolOk size other kept live s) : s.pool.chain ≠ [] := by
  rw [XmPool.chain]
  exact List.append_ne_nil_of_right_ne_nil _ hs.active

theorem PoolOk.psize_eq (hs : PoolOk size other kept live s) : s.pool.psize = size := by
  rw [XmPool.psize]
  cases hchain : s.pool.chain with
  | nil => exact absurd hchain hs.chain_ne
  | cons d ds =>
    obtain ⟨-, hge, hle, hstop, -, hlt⟩ := hs.block_facts (d := d) (hchain ▸ List.mem_cons_self)
    simp only
    rw [room_eq (hge.trans hle) hlt, hstop, Nat.add_sub_cancel_left]

/-- The headers with a block more. -/
theorem headersOf_append {as : List Nat} (a : Nat) (has : as ≠ []) :
    (headersOf (as ++ [a])).Perm (⟨a, sizeofPoolData⟩ :: headersOf as) := by
  cases as with
  | nil => exact absurd rfl has
  | cons b bs =>
    simp only [headersOf, List.cons_append, List.head?_cons]
    rw [← List.cons_append, List.map_append, ← List.append_assoc]
    exact List.perm_append_comm

/-- A chunk from a block with room. -/
theorem PoolOk.findRoom (hs : PoolOk size other kept live s) {active : List XmPoolData}
    (h : findRoom n align s.pool.active = some (m, active)) : 0 < m ∧ (align = true → XM_ALIGNMENT ∣ m) ∧
      PoolOk size other (⟨m, n⟩ :: kept) live { s with pool := { s.pool with active := active } } := by
  have hfacts : ∀ d ∈ s.pool.active, d.last ≤ d.stop ∧ XM_ALIGNMENT ∣ d.stop ∧ d.stop < 2 ^ 64 := by
    intro d hd
    obtain ⟨-, -, hle, -, hdvd, hlt⟩ := hs.block_facts (d := d) (List.mem_append_right _ hd)
    exact ⟨hle, hdvd, hlt⟩
  obtain ⟨pre, d, post, hactive, rfl, hm, hn, halign⟩ := findRoom_spec hfacts h
  have hmem : d ∈ s.pool.chain := List.mem_append_right _ (hactive ▸ List.mem_append_right _ List.mem_cons_self)
  have hpos := hs.block_facts hmem
  have hold : s.pool.blocks = (s.pool.passed ++ pre).map XmPoolData.extent ++ d.extent ::
      post.map XmPoolData.extent := by
    simp [XmPool.blocks, XmPool.chain, hactive]
  have hnew : ({ s.pool with active := pre ++ { d with last := m + n } :: post } : XmPool).blocks =
      (s.pool.passed ++ pre).map XmPoolData.extent ++ { d.extent with last := m + n } ::
        post.map XmPoolData.extent := by
    simp [XmPool.blocks, XmPool.chain, XmPoolData.extent]
  have haddrs : ({ s.pool with active := pre ++ { d with last := m + n } :: post } : XmPool).blocks.map Extent.addr =
      s.pool.blocks.map Extent.addr := by
    rw [hold, hnew]
    simp
  have hlaid := hs.laid
  rw [hold] at hlaid
  refine ⟨by omega, halign, ?_⟩
  constructor
  · have hcarved := hlaid.carve hm hn
    rw [← hnew] at hcarved
    rw [XmPool.inner, haddrs]
    exact hcarved
  · simp
  · exact hs.max
  · exact hs.dvd

/-- A chunk from a new block. -/
theorem PoolOk.addBlock (hs : PoolOk size other kept live s) (hn : n + sizeofPoolData ≤ size) (hh : h.Ok) {a : Nat}
    (hchunks : h.chunks = ⟨a, size⟩ :: s.heap.chunks) (ha : XM_POOL_ALIGNMENT ∣ a) :
    alignPtr (a + sizeofPoolData) = a + sizeofPoolData ∧
      PoolOk size other (⟨a + sizeofPoolData, n⟩ :: kept) live ⟨Mpool.addBlock a n s.pool, h⟩ := by
  have hdvd : XM_ALIGNMENT ∣ a + sizeofPoolData := Nat.dvd_add (Nat.dvd_trans (by decide) ha) (by decide)
  have halign : alignPtr (a + sizeofPoolData) = a + sizeofPoolData := alignPtr_of_dvd hdvd
  refine ⟨halign, ?_⟩
  have hgrown := hs.laid.grow hh hchunks ha (w := sizeofPoolData) (by omega)
  have hcarved := hgrown.carve (m := a + sizeofPoolData) (n := n) le_rfl (by simp only; omega)
  have hblocks := addBlock_blocks a n s.pool
  rw [halign, hs.psize_eq] at hblocks
  have haddrs : (Mpool.addBlock a n s.pool).blocks.map Extent.addr = s.pool.blocks.map Extent.addr ++ [a] := by
    rw [hblocks]
    simp
  have hne : s.pool.blocks.map Extent.addr ≠ [] := by simpa [XmPool.blocks] using hs.chain_ne
  have hinner : (Mpool.addBlock a n s.pool).inner.Perm (⟨a, sizeofPoolData⟩ :: s.pool.inner) := by
    rw [XmPool.inner, haddrs]
    exact (headersOf_append a hne).append_right _
  constructor
  · rw [hblocks]
    refine hcarved.of_cells (List.Perm.cons _ ?_) (.refl _)
    exact (List.perm_middle.symm.trans (hinner.symm.append_left kept))
  · exact addBlock_active _ _ _
  · exact hs.max
  · exact hs.dvd

theorem PoolOk.of_heap (hs : PoolOk size other kept live s) (hk : h.chunks = s.heap.chunks) :
    PoolOk size other kept live { s with heap := h } where
  laid := hs.laid.of_heap hk
  active := hs.active
  max := hs.max
  dvd := hs.dvd

/-- What a request for a small chunk returns: a chunk that is not in use, or none. -/
structure SmallChunk (size n : Nat) (align : Bool) (other kept live : List Chunk) (s : PoolState)
    (r : Nat × PoolState) :
    Prop where
  large : r.2.pool.large = s.pool.large
  cleanup : r.2.pool.cleanup = s.pool.cleanup
  aligned : align = true → XM_ALIGNMENT ∣ r.1
  null : r.1 = 0 → PoolOk size other kept live r.2
  chunk : r.1 ≠ 0 → PoolOk size other (⟨r.1, n⟩ :: kept) live r.2

theorem PoolOk.xmPallocBlock (hs : PoolOk size other kept live s) (hn : n + sizeofPoolData ≤ size) :
    SmallChunk size n align other kept live s (xmPallocBlock A n s) := by
  unfold Mpool.xmPallocBlock
  by_cases hnull : (s.heap.memalign A XM_POOL_ALIGNMENT s.pool.psize).1 = 0
  · simp only [if_pos hnull]
    exact ⟨rfl, rfl, fun _ => Nat.dvd_zero _, fun _ => hs.of_heap (Heap.memalign_null hnull),
      fun hne => absurd rfl hne⟩
  · obtain ⟨hplace, hchunks⟩ := Heap.memalign_spec hnull
    simp only [if_neg hnull]
    rw [hs.psize_eq] at hplace hchunks ⊢
    obtain ⟨halign, hok⟩ := hs.addBlock hn hs.laid.heap.memalign hchunks (A.place_dvd hplace)
    rw [halign]
    refine ⟨rfl, rfl, fun _ => halign ▸ dvd_alignPtr _, fun hzero => ?_, fun _ => hok⟩
    simp [sizeofPoolData] at hzero

theorem PoolOk.xmPallocSmall (hs : PoolOk size other kept live s) (hn : n + sizeofPoolData ≤ size) :
    SmallChunk size n align other kept live s (xmPallocSmall A n align s) := by
  unfold Mpool.xmPallocSmall
  split
  · next m active hroom =>
    obtain ⟨hpos, halign, hok⟩ := hs.findRoom hroom
    exact ⟨rfl, rfl, halign, fun hzero => absurd hzero hpos.ne', fun _ => hok⟩
  · exact hs.xmPallocBlock hn

/-! ## Large chunks -/

/-- A change of the list that takes a chunk which belongs to no one into the pool. -/
theorem PoolOk.adopt (hs : PoolOk size (c :: other) kept live s) (hother : c ∉ other) {large : List XmPoolLarge}
    {kept' : List Chunk} (hnodes : (kept' ++ nodesOf large).Perm (kept ++ nodesOf s.pool.large))
    (hallocs : (allocsOf large).Perm (c.addr :: allocsOf s.pool.large)) :
    PoolOk size other kept' (c :: live) { s with pool := { s.pool with large := large } } where
  laid := by
    refine ((hs.laid.adopt hother).of_allocs hallocs.symm).of_cells ?_ (.refl _)
    have hswap : ∀ k l : List Chunk, (k ++ (headersOf (s.pool.blocks.map Extent.addr) ++ l)).Perm
        (headersOf (s.pool.blocks.map Extent.addr) ++ (k ++ l)) := by
      intro k l
      rw [← List.append_assoc, ← List.append_assoc]
      exact List.perm_append_comm.append_right l
    exact (hswap _ _).trans ((hnodes.symm.append_left _).trans (hswap _ _).symm)
  active := hs.active
  max := hs.max
  dvd := hs.dvd

/-- What a request for a chunk returns: a chunk that is not in use, or none. -/
structure Returned (size n al : Nat) (other live : List Chunk) (cleanup : List XmPoolCleanup) (r : Nat × PoolState) :
    Prop where
  aligned : al ∣ r.1
  cleanup : r.2.pool.cleanup = cleanup
  null : r.1 = 0 → PoolOk size other [] live r.2
  chunk : r.1 ≠ 0 → PoolOk size other [] (⟨r.1, n⟩ :: live) r.2

theorem PoolOk.pushLarge (hs : PoolOk size (⟨p, n⟩ :: other) [] live s) (hp : p ≠ 0)
    (hother : (⟨p, n⟩ : Chunk) ∉ other)
    (hsize : sizeofPool ≤ size) {al : Nat} (hal : al ∣ p) :
    ∃ r, pushLarge A p s = some r ∧ Returned size n al other live s.pool.cleanup r := by
  have hsmall : SmallChunk size sizeofPoolLarge true (⟨p, n⟩ :: other) [] live s
      (Mpool.xmPallocSmall A sizeofPoolLarge true s) :=
    hs.xmPallocSmall (le_trans (by decide) hsize)
  unfold Mpool.pushLarge
  by_cases hnull : (Mpool.xmPallocSmall A sizeofPoolLarge true s).1 = 0
  · have hok := hsmall.null hnull
    obtain ⟨k, hfree, hlaid⟩ := hok.laid.disown hother
    simp only [if_pos hnull, hfree, Option.map_some]
    refine ⟨_, rfl, Nat.dvd_zero _, hsmall.cleanup, fun _ => ?_, fun hne => absurd rfl hne⟩
    exact ⟨hlaid, hok.active, hok.max, hok.dvd⟩
  · have hok := hsmall.chunk hnull
    simp only [if_neg hnull]
    refine ⟨_, rfl, hal, hsmall.cleanup, fun hzero => absurd hzero hp, fun _ => ?_⟩
    apply hok.adopt hother
    · exact .refl _
    · rw [allocsOf_cons (by exact hp)]

theorem PoolOk.request (hs : PoolOk size other kept live s) (hk : h.Ok) (hchunks : h.chunks = c :: s.heap.chunks) :
    PoolOk size (c :: other) kept live { s with heap := h } ∧ c ∉ other := by
  refine ⟨⟨hs.laid.request hk hchunks, hs.active, hs.max, hs.dvd⟩, fun hc => ?_⟩
  have hnodup := hk.nodup
  rw [hchunks, List.map_cons, List.nodup_cons] at hnodup
  exact hnodup.1 (List.mem_map_of_mem (hs.laid.foreign c hc).1)

theorem PoolOk.xmPallocLarge (hs : PoolOk size other [] live s) {al : Nat} (hal : al ∣ 16) :
    ∃ r, xmPallocLarge A n s = some r ∧ Returned size n al other live s.pool.cleanup r := by
  unfold Mpool.xmPallocLarge
  by_cases hnull : (s.heap.malloc A n).1 = 0
  · simp only [if_pos hnull]
    exact ⟨_, rfl, Nat.dvd_zero _, rfl, fun _ => hs.of_heap (Heap.memalign_null hnull), fun hne => absurd rfl hne⟩
  · obtain ⟨hplace, hchunks⟩ := Heap.memalign_spec hnull
    have hdvd := Nat.dvd_trans hal (A.place_dvd hplace)
    obtain ⟨hok, hother⟩ := hs.request hs.laid.heap.memalign hchunks
    simp only [if_neg hnull]
    split
    · next large hreuse =>
      obtain ⟨hnodes, hallocs⟩ := reuseNode_spec hnull hreuse
      refine ⟨_, rfl, hdvd, rfl, fun hzero => absurd hzero hnull, fun _ => ?_⟩
      apply hok.adopt hother
      · rw [hnodes]
      · exact hallocs
    · exact hok.pushLarge hnull hother (le_trans (Nat.le_add_left _ _) hs.max) hdvd

theorem PoolOk.xmPmemalign (hs : PoolOk size other [] live s) (al : Nat) :
    ∃ r, xmPmemalign A n al s = some r ∧ Returned size n al other live s.pool.cleanup r := by
  unfold Mpool.xmPmemalign
  by_cases hnull : (s.heap.memalign A al n).1 = 0
  · simp only [if_pos hnull]
    exact ⟨_, rfl, Nat.dvd_zero _, rfl, fun _ => hs.of_heap (Heap.memalign_null hnull), fun hne => absurd rfl hne⟩
  · obtain ⟨hplace, hchunks⟩ := Heap.memalign_spec hnull
    obtain ⟨hok, hother⟩ := hs.request hs.laid.heap.memalign hchunks
    simp only [if_neg hnull]
    exact hok.pushLarge hnull hother (le_trans (Nat.le_add_left _ _) hs.max) (A.place_dvd hplace)

/-! ## Requests -/

theorem PoolOk.pallocAligned (hs : PoolOk size other [] live s) (align : Bool) (n : Nat) :
    ∃ r, pallocAligned A align n s = some r ∧
      Returned size n (if align then XM_ALIGNMENT else 1) other live s.pool.cleanup r := by
  unfold Mpool.pallocAligned
  split
  · next hmax =>
    have hsmall : SmallChunk size n align other [] live s (Mpool.xmPallocSmall A n align s) := by
      apply hs.xmPallocSmall
      have := hs.max
      simp only [sizeofPool, sizeofPoolData] at this ⊢
      omega
    refine ⟨_, rfl, ?_, hsmall.cleanup, hsmall.null, fun hne => (hsmall.chunk hne).handOut⟩
    cases align with
    | true => exact hsmall.aligned rfl
    | false => exact Nat.one_dvd _
  · apply hs.xmPallocLarge
    cases align <;> decide

theorem PoolOk.xmPfree (hs : PoolOk size other [] live s) (p : Nat) : ∃ r, xmPfree p s = some r ∧
    r.2.pool.cleanup = s.pool.cleanup ∧ (r.1 = 0 → PoolOk size other [] (live.filter fun c => c.addr ≠ p) r.2) ∧
      (r.1 ≠ 0 → r.2 = s) := by
  unfold Mpool.xmPfree
  split
  · exact ⟨_, rfl, rfl, fun hzero => by simp at hzero, fun _ => rfl⟩
  · next large hclear =>
    obtain ⟨hnodes, hspec⟩ := clearAlloc_spec hclear
    by_cases hp : p = 0
    · have hfree : s.heap.free p = some s.heap := by rw [Heap.free, if_pos hp]
      rw [if_pos hp] at hspec
      subst hspec
      simp only [hfree, Option.map_some]
      exact ⟨_, rfl, rfl, fun _ => hs.of_live List.filter_sublist, fun hne => absurd rfl hne⟩
    · rw [if_neg hp] at hspec
      obtain ⟨k, hfree, hlaid⟩ := (hs.laid.of_allocs hspec).release
      simp only [hfree, Option.map_some]
      refine ⟨_, rfl, rfl, fun _ => ⟨?_, hs.active, hs.max, hs.dvd⟩, fun hne => absurd rfl hne⟩
      rw [XmPool.inner, hnodes]
      exact hlaid

/-! ## The end -/

theorem headersOf_inside {as : List Nat} (hc : c ∈ headersOf as) : ∃ a ∈ as, c.Inside ⟨a, sizeofPool⟩ := by
  simp only [headersOf, List.mem_append, List.mem_map, Option.mem_toList] at hc
  rcases hc with ⟨a, ha, rfl⟩ | ⟨a, ha, rfl⟩
  · refine ⟨a, List.mem_of_head? ha, ?_⟩
    simp [Inside, stop, sizeofPool, sizeofPoolData]
  · refine ⟨a, ha, ?_⟩
    simp [Inside, stop, sizeofPool, sizeofPoolData]

theorem PoolOk.xmPoolReset (hs : PoolOk size other [] live s) :
    ∃ t, xmPoolReset s = some t ∧ t.pool.cleanup = s.pool.cleanup ∧ PoolOk size other [] [] t := by
  obtain ⟨k, hfree, hlaid⟩ := hs.laid.releaseAll
  have hsize : sizeofPool ≤ size := le_trans (Nat.le_add_left _ _) hs.max
  have hfree : s.heap.freeAll s.pool.allocs = some k := hfree
  simp only [Mpool.xmPoolReset, hfree, Option.map_some]
  refine ⟨_, rfl, rfl, ?_⟩
  have hblocks : ({ s.pool with
      passed := [], active := s.pool.chain.map fun p => { p with last := p.addr + sizeofPool, failed := 0 },
      large := [] } : XmPool).blocks = s.pool.blocks.map fun e => { e with last := e.addr + sizeofPool } := by
    simp only [XmPool.blocks, XmPool.chain, List.nil_append, List.map_map]
    rfl
  have haddrs : (s.pool.blocks.map fun e => { e with last := e.addr + sizeofPool }).map Extent.addr =
      s.pool.blocks.map Extent.addr := by
    simp
  have hheaders : ∀ c ∈ headersOf (s.pool.blocks.map Extent.addr), ∃ e ∈ s.pool.blocks,
      c.Inside ⟨e.addr, sizeofPool⟩ := by
    intro c hc
    obtain ⟨a, ha, hin⟩ := headersOf_inside hc
    obtain ⟨e, he, rfl⟩ := List.mem_map.mp ha
    exact ⟨e, he, hin⟩
  constructor
  · rw [XmPool.inner, hblocks, haddrs]
    refine hlaid.rewind hsize ?_ ?_
    · simp [nodesOf, XmPool.inner]
    · simpa [nodesOf] using hheaders
  · simpa using hs.chain_ne
  · exact hs.max
  · exact hs.dvd

/-- A handler neither allocates nor frees. -/
def LeavesHeap (handler : XmPoolCleanup → Heap → Heap) : Prop := ∀ c heap, (handler c heap).chunks = heap.chunks

theorem LeavesHeap.runCleanups {handler : XmPoolCleanup → Heap → Heap} (h : LeavesHeap handler)
    (cleanup : List XmPoolCleanup) (heap : Heap) : (runCleanups handler cleanup heap).chunks = heap.chunks := by
  rw [Mpool.runCleanups]
  induction cleanup generalizing heap with
  | nil => rfl
  | cons c cs ih => exact (ih (handler c heap)).trans (h c heap)

theorem PoolOk.xmPoolDestroy (hs : PoolOk size other [] live s) {handler : XmPoolCleanup → Heap → Heap}
    (hhandler : LeavesHeap handler) :
    ∃ h, xmPoolDestroy handler s = some h ∧ ∀ c, c ∈ h.chunks ↔ c ∈ other := by
  obtain ⟨k, k', hallocs, hblocks, hspec⟩ :=
    (hs.laid.of_heap (hhandler.runCleanups s.pool.cleanup s.heap)).destroy
  have hallocs : (runCleanups handler s.pool.cleanup s.heap).freeAll s.pool.allocs = some k := hallocs
  have haddrs : s.pool.chain.map XmPoolData.addr = s.pool.blocks.map Extent.addr := by
    rw [XmPool.blocks, List.map_map]
    rfl
  refine ⟨k', ?_, hspec⟩
  rw [Mpool.xmPoolDestroy, hallocs, haddrs]
  exact hblocks

end

end Xmap.Mpool
