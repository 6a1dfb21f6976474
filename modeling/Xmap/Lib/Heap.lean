import Mathlib.Tactic

/-!
# A heap

A heap is the list of the chunks in use. An allocator answers requests with memory that is not in use. What it
answers may depend on everything before, so it sees how many requests there were.
-/

namespace Xmap.Lib

/-- A piece of memory. -/
structure Chunk where
  addr : Nat
  size : Nat
deriving DecidableEq, Repr

namespace Chunk

def stop (c : Chunk) : Nat := c.addr + c.size

/-- No byte is in both. -/
def Apart (c d : Chunk) : Prop := c.stop ≤ d.addr ∨ d.stop ≤ c.addr

def Inside (c d : Chunk) : Prop := d.addr ≤ c.addr ∧ c.stop ≤ d.stop

variable {c d e : Chunk}

theorem Apart.symm (h : c.Apart d) : d.Apart c := Or.symm h

instance : Std.Symm Apart := ⟨fun _ _ h => h.symm⟩

theorem Inside.refl (c : Chunk) : c.Inside c := ⟨le_rfl, le_rfl⟩

theorem Inside.trans (h : c.Inside d) (h' : d.Inside e) : c.Inside e := ⟨h'.1.trans h.1, h.2.trans h'.2⟩

theorem Apart.of_inside (h : c.Apart d) (hi : e.Inside d) : c.Apart e := h.imp hi.1.trans' fun hle => hi.2.trans hle

end Chunk

open Chunk

/-- The chunks in use, and the number of requests so far. -/
structure Heap where
  chunks : List Chunk
  requests : Nat
deriving DecidableEq, Repr

/-- What the program may rely on: memory in use is not null, lies in the address space, and no two chunks overlap or
have one address. -/
structure Heap.Ok (h : Heap) : Prop where
  nodup : (h.chunks.map addr).Nodup
  apart : h.chunks.Pairwise Apart
  pos : ∀ c ∈ h.chunks, 0 < c.addr
  stop_lt : ∀ c ∈ h.chunks, c.stop < 2 ^ 64

/-- An allocator: where it places a request of an alignment and a size, if it can. -/
structure Allocator where
  place : Heap → Nat → Nat → Option Nat
  place_pos : ∀ {h al n a}, place h al n = some a → 0 < a
  place_dvd : ∀ {h al n a}, place h al n = some a → al ∣ a
  place_lt : ∀ {h al n a}, place h al n = some a → a + n < 2 ^ 64
  place_apart : ∀ {h al n a}, place h al n = some a → ∀ c ∈ h.chunks, Apart ⟨a, n⟩ c ∧ a ≠ c.addr

/-- An address behind everything in use. -/
def Heap.top (h : Heap) : Nat := h.chunks.foldr (fun c n => max (c.stop + 1) n) 1

theorem Heap.lt_top {h : Heap} {c : Chunk} (hc : c ∈ h.chunks) : c.stop < h.top := by
  rw [Heap.top]
  generalize h.chunks = cs at hc ⊢
  induction cs with
  | nil => cases hc
  | cons d ds ih =>
    rw [List.foldr_cons]
    rcases List.mem_cons.mp hc with rfl | hc
    · exact lt_of_lt_of_le (Nat.lt_succ_self _) (le_max_left _ _)
    · exact lt_of_lt_of_le (ih hc) (le_max_right _ _)

theorem Heap.top_pos (h : Heap) : 0 < h.top := by
  rw [Heap.top]
  induction h.chunks with
  | nil => exact Nat.one_pos
  | cons d ds ih => exact lt_of_lt_of_le ih (le_max_right _ _)

/-- The next multiple of an alignment. -/
def roundUp (n al : Nat) : Nat := (n + (al - 1)) / al * al

theorem le_roundUp {n al : Nat} (h : 0 < al) : n ≤ roundUp n al := by
  have hdiv := Nat.div_add_mod (n + (al - 1)) al
  have hmod := Nat.mod_lt (n + (al - 1)) h
  rw [Nat.mul_comm] at hdiv
  rw [roundUp]
  omega

def bumpPlace (h : Heap) (al n : Nat) : Option Nat :=
  if 0 < al ∧ roundUp h.top al + n < 2 ^ 64 then some (roundUp h.top al) else none

theorem bumpPlace_spec {h : Heap} {al n a : Nat} (hp : bumpPlace h al n = some a) :
    0 < a ∧ al ∣ a ∧ a + n < 2 ^ 64 ∧ ∀ c ∈ h.chunks, Apart ⟨a, n⟩ c ∧ a ≠ c.addr := by
  unfold bumpPlace at hp
  split at hp
  · next hfits =>
    cases hp
    have hle : h.top ≤ roundUp h.top al := le_roundUp hfits.1
    refine ⟨lt_of_lt_of_le h.top_pos hle, Nat.dvd_mul_left _ _, hfits.2, fun c hc => ?_⟩
    have hlt : c.addr + c.size < roundUp h.top al := lt_of_lt_of_le (Heap.lt_top hc) hle
    exact ⟨.inr hlt.le, by omega⟩
  · cases hp

/-- The allocator that places everything behind what is in use. -/
def bumpAllocator : Allocator where
  place := bumpPlace
  place_pos h := (bumpPlace_spec h).1
  place_dvd h := (bumpPlace_spec h).2.1
  place_lt h := (bumpPlace_spec h).2.2.1
  place_apart h := (bumpPlace_spec h).2.2.2

namespace Heap

def withChunk (h : Heap) (c : Chunk) : Heap := ⟨c :: h.chunks, h.requests + 1⟩

/-- `memalign`. The null pointer is 0. -/
def memalign (A : Allocator) (al n : Nat) (h : Heap) : Nat × Heap :=
  match A.place h al n with
  | none => (0, ⟨h.chunks, h.requests + 1⟩)
  | some a => (a, h.withChunk ⟨a, n⟩)

/-- `malloc`, whose memory is aligned for every type. -/
def malloc (A : Allocator) (n : Nat) (h : Heap) : Nat × Heap := memalign A 16 n h

/-- `free`. It is not defined for what is not in use. -/
def free (p : Nat) (h : Heap) : Option Heap :=
  if p = 0 then some h
  else if p ∈ h.chunks.map addr then some ⟨h.chunks.filter fun c => c.addr ≠ p, h.requests⟩ else none

/-- Several chunks, one after the other. -/
def freeAll : List Nat → Heap → Option Heap
  | [], h => some h
  | p :: ps, h => (h.free p).bind (freeAll ps)

section
variable {A : Allocator} {h k : Heap} {al n p a : Nat} {c d : Chunk} {ps : List Nat}

theorem memalign_null (hm : (memalign A al n h).1 = 0) : (memalign A al n h).2.chunks = h.chunks := by
  unfold memalign at hm ⊢
  split
  · rfl
  · next a ha =>
    rw [ha] at hm
    exact absurd hm (A.place_pos ha).ne'

/-- What a request gets, unless it gets nothing. -/
theorem memalign_spec (hp : (memalign A al n h).1 ≠ 0) :
    A.place h al n = some (memalign A al n h).1 ∧
      (memalign A al n h).2.chunks = ⟨(memalign A al n h).1, n⟩ :: h.chunks := by
  unfold memalign at hp ⊢
  cases ha : A.place h al n with
  | none => simp [ha] at hp
  | some a => exact ⟨rfl, rfl⟩

theorem Ok.of_chunks (hh : h.Ok) (hk : k.chunks = h.chunks) : k.Ok := by
  constructor <;> rw [hk]
  · exact hh.nodup
  · exact hh.apart
  · exact hh.pos
  · exact hh.stop_lt

theorem Ok.memalign (hh : h.Ok) : (memalign A al n h).2.Ok := by
  by_cases hp : (Heap.memalign A al n h).1 = 0
  · exact hh.of_chunks (memalign_null hp)
  · obtain ⟨hplace, hchunks⟩ := memalign_spec hp
    have hnew := A.place_apart hplace
    constructor <;> rw [hchunks]
    · rw [List.map_cons, List.nodup_cons]
      refine ⟨fun hmem => ?_, hh.nodup⟩
      obtain ⟨c, hc, haddr⟩ := List.mem_map.mp hmem
      exact (hnew c hc).2 haddr.symm
    · exact List.pairwise_cons.mpr ⟨fun c hc => (hnew c hc).1, hh.apart⟩
    · exact List.forall_mem_cons.mpr ⟨A.place_pos hplace, hh.pos⟩
    · exact List.forall_mem_cons.mpr ⟨A.place_lt hplace, hh.stop_lt⟩

theorem free_chunks (hf : h.free p = some k) (hp : p ≠ 0) : k.chunks = h.chunks.filter fun c => c.addr ≠ p := by
  rw [free, if_neg hp] at hf
  split at hf
  · cases hf
    rfl
  · cases hf

theorem Ok.free (hh : h.Ok) (hf : h.free p = some k) : k.Ok := by
  by_cases hp : p = 0
  · rw [Heap.free, if_pos hp] at hf
    cases hf
    exact hh
  · have hchunks := free_chunks hf hp
    have hsub : k.chunks.Sublist h.chunks := hchunks ▸ List.filter_sublist
    exact ⟨hh.nodup.sublist (hsub.map _), hh.apart.sublist hsub, fun c hc => hh.pos c (hsub.subset hc),
      fun c hc => hh.stop_lt c (hsub.subset hc)⟩

theorem mem_of_addr_eq (hh : h.Ok) (hc : c ∈ h.chunks) (hd : d ∈ h.chunks) (heq : c.addr = d.addr) : c = d :=
  List.inj_on_of_nodup_map hh.nodup hc hd heq

theorem apart_of_ne (hh : h.Ok) (hc : c ∈ h.chunks) (hd : d ∈ h.chunks) (hne : c ≠ d) : c.Apart d :=
  hh.apart.forall hc hd hne

/-- Distinct addresses in use can all be freed, and nothing else is. -/
theorem freeAll_spec (hnodup : ps.Nodup) (hmem : ∀ p ∈ ps, p ∈ h.chunks.map addr) (hpos : ∀ p ∈ ps, p ≠ 0) :
    ∃ k, h.freeAll ps = some k ∧ k.chunks = h.chunks.filter fun c => c.addr ∉ ps := by
  induction ps generalizing h with
  | nil => exact ⟨h, rfl, by simp⟩
  | cons p ps ih =>
    obtain ⟨hp, hps⟩ := List.nodup_cons.mp hnodup
    have hfree : h.free p = some ⟨h.chunks.filter fun c => c.addr ≠ p, h.requests⟩ := by
      rw [free, if_neg (hpos p List.mem_cons_self), if_pos (hmem p List.mem_cons_self)]
    have hrest : ∀ q ∈ ps, q ∈ (h.chunks.filter fun c => c.addr ≠ p).map addr := by
      intro q hq
      obtain ⟨c, hc, haddr⟩ := List.mem_map.mp (hmem q (List.mem_cons_of_mem _ hq))
      refine List.mem_map.mpr ⟨c, List.mem_filter.mpr ⟨hc, ?_⟩, haddr⟩
      rw [decide_eq_true_iff, haddr]
      rintro rfl
      exact hp hq
    obtain ⟨k, hk, hchunks⟩ := ih (h := ⟨_, h.requests⟩) hps hrest fun q hq => hpos q (List.mem_cons_of_mem _ hq)
    refine ⟨k, by rw [freeAll, hfree]; exact hk, ?_⟩
    rw [hchunks, List.filter_filter]
    refine List.filter_congr fun c _ => ?_
    rw [← Bool.decide_and, decide_eq_decide, List.mem_cons, not_or, and_comm]

end

end Heap

end Xmap.Lib
