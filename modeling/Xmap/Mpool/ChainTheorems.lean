import Xmap.Mpool.PoolTheorems

/-!
# Theorems on the chain and on cleanups

A block is left behind when it has failed six times. The nodes of the cleanups are in memory in use unless the pool is
reset, and where they are, the end of the pool gives back all that it has.
-/

namespace Xmap.Mpool

open Xmap.Lib Chunk

/-- The counts of failures: six in the blocks before `current`, fewer from it on, never more in a later block than
in an earlier one, and none in the last block. -/
structure FailuresCounted (pool : XmPool) : Prop where
  passed : ∀ p ∈ pool.passed, p.failed = 6
  active : ∀ p ∈ pool.active, p.failed ≤ 5
  sorted : (pool.active.map XmPoolData.failed).Pairwise (· ≥ ·)
  last : ∃ p, pool.active.getLast? = some p ∧ p.failed = 0

section
variable {A : Allocator} {size n m : Nat} {align : Bool} {s t : PoolState} {ps ps' : List XmPoolData} {pool : XmPool}

/-! ## Counts -/

def bump (p : XmPoolData) : XmPoolData := { p with failed := p.failed + 1 }

theorem countFailure_low (hps : ∀ p ∈ ps, p.failed ≤ 4) (c : List XmPoolData × List XmPoolData) :
    ps.foldl countFailure c = (c.1, c.2 ++ ps.map bump) := by
  induction ps generalizing c with
  | nil => simp
  | cons p ps ih =>
    obtain ⟨hp, hrest⟩ := List.forall_mem_cons.mp hps
    rw [List.foldl_cons, countFailure, if_neg (by omega), ih hrest]
    simp [bump]

/-- The blocks that have failed five times come first, and these are left behind. -/
theorem countFailure_sorted (hps : ∀ p ∈ ps, p.failed ≤ 5) (hsort : (ps.map XmPoolData.failed).Pairwise (· ≥ ·))
    (passed : List XmPoolData) : ∃ hi lo, ps = hi ++ lo ∧ (∀ p ∈ hi, p.failed = 5) ∧ (∀ p ∈ lo, p.failed ≤ 4) ∧
      ps.foldl countFailure (passed, []) = (passed ++ hi.map bump, lo.map bump) := by
  induction ps generalizing passed with
  | nil => exact ⟨[], [], rfl, by simp, by simp, by simp⟩
  | cons p ps ih =>
    obtain ⟨hp, hrest⟩ := List.forall_mem_cons.mp hps
    rw [List.map_cons, List.pairwise_cons] at hsort
    by_cases hfive : p.failed = 5
    · obtain ⟨hi, lo, rfl, hhi, hlo, hfold⟩ := ih hrest hsort.2 (passed ++ [bump p])
      refine ⟨p :: hi, lo, rfl, List.forall_mem_cons.mpr ⟨hfive, hhi⟩, hlo, ?_⟩
      rw [List.foldl_cons, countFailure, if_pos (by omega), List.append_nil]
      exact hfold.trans (by simp)
    · have hlow : ∀ q ∈ p :: ps, q.failed ≤ 4 := by
        refine List.forall_mem_cons.mpr ⟨by omega, fun q hq => ?_⟩
        have hle := hsort.1 q.failed (List.mem_map_of_mem hq)
        omega
      exact ⟨[], p :: ps, rfl, by simp, hlow, by rw [countFailure_low hlow]; simp⟩

theorem findRoom_failed (h : findRoom n align ps = some (m, ps')) :
    ps'.map XmPoolData.failed = ps.map XmPoolData.failed := by
  induction ps generalizing ps' with
  | nil => simp [findRoom] at h
  | cons p ps ih =>
    simp only [findRoom] at h
    split at h
    · cases h
      rfl
    · obtain ⟨⟨m', qs⟩, hq, heq⟩ := Option.map_eq_some_iff.mp h
      cases heq
      exact congrArg (p.failed :: ·) (ih hq)

/-- The invariant is about the counts only. -/
theorem FailuresCounted.of_counts {pool' : XmPool} (h : FailuresCounted pool) (hpassed : pool'.passed = pool.passed)
    (hactive : pool'.active.map XmPoolData.failed = pool.active.map XmPoolData.failed) : FailuresCounted pool' := by
  have hmem : ∀ p ∈ pool'.active, ∃ q ∈ pool.active, q.failed = p.failed := by
    intro p hp
    have hin : p.failed ∈ pool'.active.map XmPoolData.failed := List.mem_map_of_mem hp
    rw [hactive] at hin
    exact List.mem_map.mp hin
  constructor
  · exact hpassed ▸ h.passed
  · intro p hp
    obtain ⟨q, hq, heq⟩ := hmem p hp
    exact heq ▸ h.active q hq
  · exact hactive ▸ h.sorted
  · obtain ⟨p, hp, hzero⟩ := h.last
    have hlast : (pool'.active.map XmPoolData.failed).getLast? = some 0 := by
      rw [hactive, List.getLast?_map, hp, Option.map_some, hzero]
    rw [List.getLast?_map] at hlast
    exact Option.map_eq_some_iff.mp hlast

theorem FailuresCounted.addBlock (h : FailuresCounted pool) (a n : Nat) :
    FailuresCounted (Mpool.addBlock a n pool) := by
  obtain ⟨l, hl, hzero⟩ := h.last
  have hsub : pool.active.dropLast.Sublist pool.active := List.dropLast_sublist _
  obtain ⟨hi, lo, hdrop, hhi, hlo, hfold⟩ := countFailure_sorted (fun p hp => h.active p (hsub.subset hp))
    (h.sorted.sublist (hsub.map _)) pool.passed
  have hsort : (lo.map XmPoolData.failed).Pairwise (· ≥ ·) := by
    refine h.sorted.sublist (List.Sublist.map _ ?_)
    exact (hdrop ▸ List.sublist_append_right hi lo).trans hsub
  simp only [Mpool.addBlock, hfold, hl, Option.toList_some]
  constructor
  · intro p hp
    rcases List.mem_append.mp hp with hp | hp
    · exact h.passed p hp
    · obtain ⟨q, hq, rfl⟩ := List.mem_map.mp hp
      exact congrArg (· + 1) (hhi q hq)
  · intro p hp
    simp only [List.mem_append, List.mem_map, List.mem_singleton] at hp
    rcases hp with (⟨q, hq, rfl⟩ | rfl) | rfl
    · exact Nat.succ_le_succ (hlo q hq)
    · omega
    · exact Nat.zero_le _
  · have hbumped : (lo.map bump).map XmPoolData.failed = (lo.map XmPoolData.failed).map (· + 1) := by
      rw [List.map_map, List.map_map]
      rfl
    rw [List.map_append, List.map_append, hbumped]
    simp only [List.map_cons, List.map_nil, hzero]
    rw [List.append_assoc, List.pairwise_append]
    refine ⟨List.Pairwise.map _ (fun _ _ => Nat.succ_le_succ) hsort, by simp, ?_⟩
    simp
  · exact ⟨_, List.getLast?_concat, rfl⟩

/-! ## Requests -/

theorem FailuresCounted.xmPallocSmall (h : FailuresCounted s.pool) :
    FailuresCounted (Mpool.xmPallocSmall A n align s).2.pool := by
  unfold Mpool.xmPallocSmall
  split
  · next hroom => exact h.of_counts rfl (findRoom_failed hroom)
  · unfold xmPallocBlock
    by_cases hnull : (s.heap.memalign A XM_POOL_ALIGNMENT s.pool.psize).1 = 0
    · simp only [if_pos hnull]
      exact h
    · simp only [if_neg hnull]
      exact h.addBlock _ _

theorem FailuresCounted.pushLarge (h : FailuresCounted s.pool) {p : Nat} {r : Nat × PoolState}
    (hr : pushLarge A p s = some r) : FailuresCounted r.2.pool := by
  have hsmall : FailuresCounted (Mpool.xmPallocSmall A sizeofPoolLarge true s).2.pool := h.xmPallocSmall
  unfold Mpool.pushLarge at hr
  by_cases hnull : (Mpool.xmPallocSmall A sizeofPoolLarge true s).1 = 0
  · simp only [if_pos hnull] at hr
    obtain ⟨k, -, rfl⟩ := Option.map_eq_some_iff.mp hr
    exact hsmall
  · simp only [if_neg hnull] at hr
    cases hr
    exact hsmall.of_counts rfl rfl

theorem FailuresCounted.xmPmemalign (h : FailuresCounted s.pool) {al : Nat} {r : Nat × PoolState}
    (hr : xmPmemalign A n al s = some r) : FailuresCounted r.2.pool := by
  unfold Mpool.xmPmemalign at hr
  by_cases hnull : (s.heap.memalign A al n).1 = 0
  · simp only [if_pos hnull] at hr
    cases hr
    exact h
  · simp only [if_neg hnull] at hr
    exact FailuresCounted.pushLarge (by exact h) hr

theorem FailuresCounted.pallocAligned (h : FailuresCounted s.pool) {r : Nat × PoolState}
    (hr : pallocAligned A align n s = some r) : FailuresCounted r.2.pool := by
  unfold Mpool.pallocAligned at hr
  split at hr
  · cases hr
    exact h.xmPallocSmall
  · unfold xmPallocLarge at hr
    by_cases hnull : (s.heap.malloc A n).1 = 0
    · simp only [if_pos hnull] at hr
      cases hr
      exact h
    · simp only [if_neg hnull] at hr
      split at hr
      · cases hr
        exact h.of_counts rfl rfl
      · exact FailuresCounted.pushLarge (by exact h) hr

theorem FailuresCounted.xmPoolReset (hne : s.pool.chain ≠ []) (ht : xmPoolReset s = some t) :
    FailuresCounted t.pool := by
  obtain ⟨k, -, rfl⟩ := Option.map_eq_some_iff.mp ht
  have hzero : ∀ p ∈ s.pool.chain.map fun p => { p with last := p.addr + sizeofPool, failed := 0 }, p.failed = 0 := by
    intro p hp
    obtain ⟨q, -, rfl⟩ := List.mem_map.mp hp
    rfl
  constructor
  · simp
  · intro p hp
    rw [hzero p hp]
    exact Nat.zero_le _
  · refine List.pairwise_map.mpr (List.pairwise_of_forall_mem_list ?_)
    intro p hp q hq
    rw [hzero p hp, hzero q hq]
  · obtain ⟨p, hp⟩ := Option.ne_none_iff_exists'.mp (mt List.getLast?_eq_none_iff.mp (mt List.map_eq_nil_iff.mp hne))
    exact ⟨p, hp, hzero p (List.mem_of_getLast? hp)⟩

theorem FailuresCounted.xmPoolCleanupAdd (h : FailuresCounted s.pool) {r : Nat × PoolState}
    (hr : xmPoolCleanupAdd A n s = some r) : FailuresCounted r.2.pool := by
  obtain ⟨q, hq, hr⟩ := Option.bind_eq_some_iff.mp hr
  have hcleanup : FailuresCounted q.2.pool := h.pallocAligned hq
  dsimp only at hr
  split at hr
  · cases hr
    exact hcleanup
  · split at hr
    · cases hr
      exact hcleanup.of_counts rfl rfl
    · obtain ⟨d, hd, rfl⟩ := Option.map_eq_some_iff.mp hr
      have hdata : FailuresCounted d.2.pool := hcleanup.pallocAligned hd
      split
      · exact hdata
      · exact hdata.of_counts rfl rfl

theorem FailuresCounted.poolStep {s t : PoolSys} {a : PoolAction} (h : FailuresCounted s.pool)
    (ht : poolStep A s a = some t) : FailuresCounted t.pool := by
  cases a with
  | palloc n =>
    obtain ⟨r, hr, rfl⟩ := Option.map_eq_some_iff.mp ht
    exact h.pallocAligned hr
  | pnalloc n =>
    obtain ⟨r, hr, rfl⟩ := Option.map_eq_some_iff.mp ht
    exact h.pallocAligned hr
  | pcalloc n =>
    obtain ⟨r, hr, rfl⟩ := Option.map_eq_some_iff.mp ht
    exact h.pallocAligned hr
  | pmemalign n al =>
    obtain ⟨r, hr, rfl⟩ := Option.map_eq_some_iff.mp ht
    exact h.xmPmemalign hr
  | pfree p =>
    obtain ⟨r, hr, rfl⟩ := Option.map_eq_some_iff.mp ht
    simp only [xmPfree] at hr
    split at hr
    · cases hr
      exact h
    · obtain ⟨k, -, rfl⟩ := Option.map_eq_some_iff.mp hr
      exact h.of_counts rfl rfl
  | reset =>
    obtain ⟨u, hu, rfl⟩ := Option.map_eq_some_iff.mp ht
    refine FailuresCounted.xmPoolReset ?_ hu
    obtain ⟨p, hp, -⟩ := h.last
    exact List.append_ne_nil_of_right_ne_nil _ (List.ne_nil_of_mem (List.mem_of_getLast? hp))
  | cleanupAdd n =>
    obtain ⟨r, hr, rfl⟩ := Option.map_eq_some_iff.mp ht
    exact h.xmPoolCleanupAdd hr

end

theorem xmPoolCreate_empty {A : Allocator} {size : Nat} {heap heap' : Heap} {pool : XmPool}
    (hc : xmPoolCreate A size heap = (some pool, heap')) : FailuresCounted pool ∧ pool.cleanup = [] := by
  unfold xmPoolCreate at hc
  by_cases hnull : (heap.memalign A XM_POOL_ALIGNMENT size).1 = 0
  · simp [hnull] at hc
  · simp only [if_neg hnull, Prod.mk.injEq, Option.some.injEq] at hc
    obtain ⟨rfl, rfl⟩ := hc
    exact ⟨⟨by simp, by simp, by simp, ⟨_, rfl, rfl⟩⟩, rfl⟩

/-- Whatever is asked of a pool, its counts of failures are in order. -/
theorem poolStates_failures (A : Allocator) {size : Nat} {heap heap' : Heap} {pool : XmPool}
    (hc : xmPoolCreate A size heap = (some pool, heap')) (as : List PoolAction) :
    ∀ s ∈ states (poolStep A) ⟨⟨pool, heap'⟩, []⟩ as, FailuresCounted s.pool := by
  apply states_invariant (I := fun s : PoolSys => FailuresCounted s.pool)
  · exact fun s a t ht hs => hs.poolStep ht
  · exact (xmPoolCreate_empty hc).1

theorem poolStates_failures_iterator : FailuresCounted iteratorUsed.pool :=
  poolStates_failures bumpAllocator xmPoolCreate_iterator iteratorRun iteratorUsed iteratorUsed_mem

/-! ## Cleanups -/

/-- The nodes of the cleanups are memory that is handed out. -/
def CleanupsHeld (s : PoolSys) : Prop := ∀ e ∈ s.pool.cleanup, (⟨e.node, sizeofPoolCleanup⟩ : Chunk) ∈ s.live

/-- The call does not take a node of a cleanup back. -/
def KeepsCleanups (s : PoolSys) : PoolAction → Prop
  | .pfree p => clearAlloc p s.pool.large = none ∨ ∀ e ∈ s.pool.cleanup, e.node ≠ p
  | .reset => s.pool.cleanup = []
  | _ => True

instance (s : PoolSys) : DecidablePred (KeepsCleanups s)
  | .pfree _ => inferInstanceAs (Decidable (_ ∨ ∀ _ ∈ _, _))
  | .reset => inferInstanceAs (Decidable (_ = _))
  | .palloc _ | .pnalloc _ | .pcalloc _ | .pmemalign _ _ | .cleanupAdd _ => .isTrue trivial

section
variable {A : Allocator} {size n al : Nat} {other : List Chunk} {s t : PoolSys} {r : Nat × PoolState}

theorem CleanupsHeld.after (h : CleanupsHeld s) (hr : Returned size n al other s.live s.pool.cleanup r) :
    CleanupsHeld (s.after n r) := by
  have hsub : s.live ⊆ (s.after n r).live := by
    rw [PoolSys.after]
    split
    · exact fun _ hc => hc
    · exact List.subset_cons_self _ _
  intro e he
  have hold : e ∈ s.pool.cleanup := hr.cleanup ▸ he
  exact hsub (h e hold)

theorem CleanupsHeld.palloc (h : CleanupsHeld s) (hs : s.Ok size other) {align : Bool}
    (ht : (pallocAligned A align n s.toPoolState).map (s.after n) = some t) : CleanupsHeld t := by
  obtain ⟨r, hr, rfl⟩ := Option.map_eq_some_iff.mp ht
  obtain ⟨q, hq, hret⟩ := PoolOk.pallocAligned (A := A) hs align n
  rw [hr] at hq
  cases hq
  exact h.after hret

theorem cleanupsHeld_pfree (hs : s.Ok size other) (h : CleanupsHeld s) {p : Nat}
    (ht : poolStep A s (.pfree p) = some t) :
    CleanupsHeld t ↔ KeepsCleanups s (.pfree p) := by
  obtain ⟨r, hr, rfl⟩ := Option.map_eq_some_iff.mp ht
  obtain ⟨q, hq, hcleanup, -, hsame⟩ := PoolOk.xmPfree hs p
  rw [hr] at hq
  cases hq
  cases hclear : clearAlloc p s.pool.large with
  | none =>
    simp only [xmPfree, hclear, Option.some.injEq] at hr
    subst hr
    simp only [KeepsCleanups, hclear, true_or, iff_true]
    exact h
  | some large =>
    have hzero : r.1 = 0 := by
      simp only [xmPfree, hclear] at hr
      obtain ⟨k, -, rfl⟩ := Option.map_eq_some_iff.mp hr
      rfl
    simp only [CleanupsHeld, hcleanup, hzero, if_true, KeepsCleanups, hclear, reduceCtorEq, false_or, List.mem_filter]
    constructor
    · intro hheld e he
      simpa using (hheld e he).2
    · intro hne e he
      exact ⟨h e he, by simpa using hne e he⟩

theorem cleanupsHeld_cleanupAdd (hs : s.Ok size other) (h : CleanupsHeld s)
    (ht : poolStep A s (.cleanupAdd n) = some t) :
    CleanupsHeld t := by
  obtain ⟨r, hr, rfl⟩ := Option.map_eq_some_iff.mp ht
  obtain ⟨q, hq, -, hnull, hsome⟩ := PoolOk.xmPoolCleanupAdd (A := A) hs n
  rw [hr] at hq
  cases hq
  by_cases hzero : r.1 = 0
  · intro e he
    have hold : e ∈ s.pool.cleanup := hnull hzero ▸ he
    exact List.mem_append_right _ (h e hold)
  · obtain ⟨data, hcleanup⟩ := hsome hzero
    intro e he
    have hnew : e ∈ (⟨r.1, data⟩ : XmPoolCleanup) :: s.pool.cleanup := hcleanup ▸ he
    rcases List.mem_cons.mp hnew with rfl | hold
    · refine List.mem_append_left _ ?_
      rw [cleanupChunks, if_neg hzero, hcleanup]
      exact List.mem_append_right _ (List.mem_singleton.mpr rfl)
    · exact List.mem_append_right _ (h e hold)

/-- A call leaves the nodes of the cleanups in memory that is handed out exactly when it takes none back. -/
theorem cleanupsHeld_step_iff (hs : s.Ok size other) (h : CleanupsHeld s) {a : PoolAction}
    (ht : poolStep A s a = some t) : CleanupsHeld t ↔ KeepsCleanups s a := by
  cases a with
  | palloc n => exact iff_of_true (h.palloc hs ht) trivial
  | pnalloc n => exact iff_of_true (h.palloc hs ht) trivial
  | pcalloc n => exact iff_of_true (h.palloc hs ht) trivial
  | pmemalign n al =>
    obtain ⟨r, hr, rfl⟩ := Option.map_eq_some_iff.mp ht
    obtain ⟨q, hq, hret⟩ := PoolOk.xmPmemalign (A := A) (n := n) hs al
    rw [hr] at hq
    cases hq
    exact iff_of_true (h.after hret) trivial
  | pfree p => exact cleanupsHeld_pfree hs h ht
  | reset =>
    obtain ⟨u, hu, rfl⟩ := Option.map_eq_some_iff.mp ht
    obtain ⟨q, hq, hcleanup, -⟩ := PoolOk.xmPoolReset hs
    rw [hu] at hq
    cases hq
    simp only [CleanupsHeld, hcleanup, List.not_mem_nil, imp_false, KeepsCleanups]
    exact List.eq_nil_iff_forall_not_mem.symm
  | cleanupAdd n => exact iff_of_true (cleanupsHeld_cleanupAdd hs h ht) trivial

end

theorem cleanupsHeld_create {A : Allocator} {size : Nat} {heap heap' : Heap} {pool : XmPool}
    (hc : xmPoolCreate A size heap = (some pool, heap')) : CleanupsHeld ⟨⟨pool, heap'⟩, []⟩ := by
  rw [CleanupsHeld, (xmPoolCreate_empty hc).2]
  simp

/-- In a run the nodes of the cleanups stay in memory that is handed out if and only if no call takes one back: no
reset of a pool with cleanups, and no `xm_pfree` of a node. -/
theorem poolStates_cleanups_iff (A : Allocator) {size : Nat} (h8 : XM_ALIGNMENT ∣ size) (h64 : sizeofPool ≤ size)
    {heap heap' : Heap} (hheap : heap.Ok) {pool : XmPool} (hc : xmPoolCreate A size heap = (some pool, heap'))
    (as : List PoolAction) : (∀ s ∈ states (poolStep A) ⟨⟨pool, heap'⟩, []⟩ as, CleanupsHeld s) ↔
      Meets (poolStep A) KeepsCleanups ⟨⟨pool, heap'⟩, []⟩ as := by
  apply states_iff_meets (I := PoolSys.Ok size heap.chunks)
  · exact fun s a t ht hs => hs.of_poolStep ht
  · exact fun s a t ht hs hheld => cleanupsHeld_step_iff hs hheld ht
  · exact xmPoolCreate_ok h8 h64 hheap hc
  · exact cleanupsHeld_create hc

theorem poolStates_cleanups_iff_iterator :
    (∀ s ∈ states (poolStep bumpAllocator) ⟨⟨iteratorPool, ⟨[⟨16, 1024⟩], 1⟩⟩, []⟩ [.cleanupAdd 8, .reset],
      CleanupsHeld s) ↔ Meets (poolStep bumpAllocator) KeepsCleanups ⟨⟨iteratorPool, ⟨[⟨16, 1024⟩], 1⟩⟩, []⟩
        [.cleanupAdd 8, .reset] :=
  poolStates_cleanups_iff bumpAllocator (by decide : XM_ALIGNMENT ∣ 1024) (by decide) heapOk_nil
    xmPoolCreate_iterator _

/-- In a run in which no call takes a node of a cleanup back, the end of the pool walks over nodes that are still
handed out, frees each thing that the pool has from the heap, once, and leaves what others have. -/
theorem poolStates_destroy (A : Allocator) {size : Nat} (h8 : XM_ALIGNMENT ∣ size) (h64 : sizeofPool ≤ size)
    {heap heap' : Heap} (hheap : heap.Ok) {pool : XmPool} (hc : xmPoolCreate A size heap = (some pool, heap'))
    {handler : XmPoolCleanup → Heap → Heap} (hhandler : LeavesHeap handler) {as : List PoolAction}
    (has : Meets (poolStep A) KeepsCleanups ⟨⟨pool, heap'⟩, []⟩ as) :
    ∀ s ∈ states (poolStep A) ⟨⟨pool, heap'⟩, []⟩ as, CleanupsHeld s ∧
      ∃ h, xmPoolDestroy handler s.toPoolState = some h ∧ ∀ c, c ∈ h.chunks ↔ c ∈ heap.chunks := by
  have hstart : CleanupsHeld ⟨⟨pool, heap'⟩, []⟩ := cleanupsHeld_create hc
  have hrun : ∀ s ∈ states (poolStep A) ⟨⟨pool, heap'⟩, []⟩ as, s.Ok size heap.chunks ∧ CleanupsHeld s := by
    refine states_of_meets (fun s a t ht hkeeps hs => ?_) ⟨xmPoolCreate_ok h8 h64 hheap hc, hstart⟩ has
    exact ⟨hs.1.of_poolStep ht, (cleanupsHeld_step_iff hs.1 hs.2 ht).mpr hkeeps⟩
  intro s hs
  obtain ⟨hok, hheld⟩ := hrun s hs
  exact ⟨hheld, PoolOk.xmPoolDestroy hok hhandler⟩

/-- With handlers that do nothing to the heap. -/
theorem poolStates_destroy_iterator : CleanupsHeld iteratorUsed ∧
    ∃ h, xmPoolDestroy (fun _ heap => heap) iteratorUsed.toPoolState = some h ∧
      ∀ c, c ∈ h.chunks ↔ c ∈ ([] : List Chunk) := by
  have hkeeps : Meets (poolStep bumpAllocator) KeepsCleanups ⟨⟨iteratorPool, ⟨[⟨16, 1024⟩], 1⟩⟩, []⟩ iteratorRun := by
    decide +kernel
  exact poolStates_destroy bumpAllocator (by decide : XM_ALIGNMENT ∣ 1024) (by decide) heapOk_nil
    xmPoolCreate_iterator (fun _ _ => rfl) hkeeps iteratorUsed iteratorUsed_mem

end Xmap.Mpool
