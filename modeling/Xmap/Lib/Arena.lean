import Xmap.Lib.Heap

/-!
# Arenas

An arena owns blocks of one size, which it hands out from their start on, and single chunks. What it has handed out
and what it keeps for itself does not overlap, and the rest of the heap is as it was.
-/

namespace Xmap.Lib

open Chunk

/-- A block, used up to `last`. -/
structure Extent where
  addr : Nat
  last : Nat
  stop : Nat
deriving DecidableEq, Repr

def Extent.used (e : Extent) : Chunk := ⟨e.addr, e.last - e.addr⟩

/-- The blocks and the single chunks of an arena in a heap, with the chunks of others, what the arena keeps for itself
and what it has handed out. -/
structure Laid (size al : Nat) (other inner live : List Chunk) (blocks : List Extent) (allocs : List Nat) (h : Heap) :
    Prop where
  heap : h.Ok
  block : ∀ e ∈ blocks, (⟨e.addr, size⟩ : Chunk) ∈ h.chunks ∧ e.stop = e.addr + size ∧ al ∣ e.addr ∧
    e.addr ≤ e.last ∧ e.last ≤ e.stop
  owned : (blocks.map Extent.addr ++ allocs).Nodup
  alloc : ∀ a ∈ allocs, a ∈ h.chunks.map addr
  foreign : ∀ c ∈ other, c ∈ h.chunks ∧ c.addr ∉ blocks.map Extent.addr ++ allocs
  origin : ∀ c ∈ h.chunks, c.addr ∈ blocks.map Extent.addr ++ allocs ∨ c ∈ other
  apart : (inner ++ live).Pairwise Apart
  inner : ∀ c ∈ inner, ∃ e ∈ blocks, c.Inside e.used
  live : ∀ c ∈ live, (∃ e ∈ blocks, c.Inside e.used) ∨ c ∈ h.chunks ∧ c.addr ∈ allocs

namespace Laid

variable {size al m n p a w : Nat} {other inner live inner' live' : List Chunk} {blocks pre post : List Extent}
  {allocs allocs' : List Nat} {h k : Heap} {c d : Chunk} {e : Extent}

theorem used_inside (hl : Laid size al other inner live blocks allocs h) (he : e ∈ blocks) :
    e.used.Inside ⟨e.addr, size⟩ := by
  obtain ⟨-, hstop, -, hge, hle⟩ := hl.block e he
  refine ⟨le_rfl, ?_⟩
  simp only [Extent.used, Chunk.stop]
  omega

/-- What is handed out or kept lies in a chunk that the arena owns. -/
theorem home (hl : Laid size al other inner live blocks allocs h) (hc : c ∈ inner ++ live) :
    ∃ d ∈ h.chunks, c.Inside d ∧ d.addr ∈ blocks.map Extent.addr ++ allocs := by
  have hblock : (∃ e ∈ blocks, c.Inside e.used) →
      ∃ d ∈ h.chunks, c.Inside d ∧ d.addr ∈ blocks.map Extent.addr ++ allocs := by
    rintro ⟨e, he, hin⟩
    exact ⟨_, (hl.block e he).1, hin.trans (hl.used_inside he),
      List.mem_append_left _ (List.mem_map_of_mem he)⟩
  rcases List.mem_append.mp hc with hc | hc
  · exact hblock (hl.inner c hc)
  · rcases hl.live c hc with hin | ⟨hmem, haddr⟩
    · exact hblock hin
    · exact ⟨c, hmem, .refl c, List.mem_append_right _ haddr⟩

/-- A chunk of the heap that the arena does not own is apart from all that it handed out or keeps. -/
theorem apart_of_notMem (hl : Laid size al other inner live blocks allocs h) (hd : d ∈ h.chunks)
    (hno : d.addr ∉ blocks.map Extent.addr ++ allocs) : ∀ c ∈ inner ++ live, d.Apart c := by
  intro c hc
  obtain ⟨f, hf, hin, hown⟩ := hl.home hc
  refine (Heap.apart_of_ne hl.heap hd hf ?_).of_inside hin
  rintro rfl
  exact hno hown

/-! ## Parts -/

theorem of_heap (hl : Laid size al other inner live blocks allocs h) (hk : k.chunks = h.chunks) :
    Laid size al other inner live blocks allocs k where
  heap := hl.heap.of_chunks hk
  block := hk ▸ hl.block
  owned := hl.owned
  alloc := hk ▸ hl.alloc
  foreign := hk ▸ hl.foreign
  origin := hk ▸ hl.origin
  apart := hl.apart
  inner := hl.inner
  live := hk ▸ hl.live

theorem of_allocs (hl : Laid size al other inner live blocks allocs h) (hp : allocs.Perm allocs') :
    Laid size al other inner live blocks allocs' h where
  heap := hl.heap
  block := hl.block
  owned := (hp.append_left _).nodup_iff.mp hl.owned
  alloc a ha := hl.alloc a (hp.mem_iff.mpr ha)
  foreign c hc := ⟨(hl.foreign c hc).1, fun hm => (hl.foreign c hc).2 ((hp.append_left _).mem_iff.mpr hm)⟩
  origin c hc := (hl.origin c hc).imp_left (hp.append_left _).mem_iff.mp
  apart := hl.apart
  inner := hl.inner
  live c hc := (hl.live c hc).imp_right fun hm => ⟨hm.1, hp.mem_iff.mp hm.2⟩

theorem of_cells (hl : Laid size al other inner live blocks allocs h) (hi : inner.Perm inner')
    (hv : live.Perm live') :
    Laid size al other inner' live' blocks allocs h where
  heap := hl.heap
  block := hl.block
  owned := hl.owned
  alloc := hl.alloc
  foreign := hl.foreign
  origin := hl.origin
  apart := (List.Perm.pairwise_iff (fun h => h.symm) (hi.append hv)).mp hl.apart
  inner c hc := hl.inner c (hi.mem_iff.mpr hc)
  live c hc := hl.live c (hv.mem_iff.mpr hc)

theorem of_live (hl : Laid size al other inner live blocks allocs h) (hsub : live'.Sublist live) :
    Laid size al other inner live' blocks allocs h where
  heap := hl.heap
  block := hl.block
  owned := hl.owned
  alloc := hl.alloc
  foreign := hl.foreign
  origin := hl.origin
  apart := hl.apart.sublist (hsub.append_left inner)
  inner := hl.inner
  live c hc := hl.live c (hsub.subset hc)

/-- Something kept can be handed out. -/
theorem handOut (hl : Laid size al other (c :: inner) live blocks allocs h) :
    Laid size al other inner (c :: live) blocks allocs h where
  heap := hl.heap
  block := hl.block
  owned := hl.owned
  alloc := hl.alloc
  foreign := hl.foreign
  origin := hl.origin
  apart := (List.Perm.pairwise_iff (fun h => h.symm) List.perm_middle).mpr hl.apart
  inner d hd := hl.inner d (List.mem_cons_of_mem _ hd)
  live := List.forall_mem_cons.mpr ⟨.inl (hl.inner c List.mem_cons_self), hl.live⟩

/-! ## Blocks -/

/-- A piece behind the used part of a block is apart from all that is used. -/
theorem apart_behind (hl : Laid size al other inner live blocks allocs h) (he : e ∈ blocks) (hm : e.last ≤ m)
    (hn : m + n ≤ e.stop) : ∀ c ∈ inner ++ live, Apart ⟨m, n⟩ c := by
  obtain ⟨hmem, hstop, -, hge, hle⟩ := hl.block e he
  have hblock : (⟨m, n⟩ : Chunk).Inside ⟨e.addr, size⟩ := by
    simp only [Inside, Chunk.stop]
    omega
  have hused : ∀ f ∈ blocks, ∀ c : Chunk, c.Inside f.used → Apart ⟨m, n⟩ c := by
    intro f hf c hin
    by_cases haddr : f.addr = e.addr
    · obtain rfl : f = e := List.inj_on_of_nodup_map (List.nodup_append.mp hl.owned).1 hf he haddr
      refine .symm (.inl (hin.2.trans ?_))
      simp only [Extent.used, Chunk.stop]
      omega
    · have hne : (⟨e.addr, size⟩ : Chunk) ≠ ⟨f.addr, size⟩ := fun heq => haddr (congrArg addr heq).symm
      have hapart := Heap.apart_of_ne hl.heap hmem (hl.block f hf).1 hne
      exact ((hapart.of_inside (hin.trans (hl.used_inside hf))).symm.of_inside hblock).symm
  intro c hc
  rcases List.mem_append.mp hc with hc | hc
  · obtain ⟨f, hf, hin⟩ := hl.inner c hc
    exact hused f hf c hin
  · rcases hl.live c hc with ⟨f, hf, hin⟩ | ⟨hch, haddr⟩
    · exact hused f hf c hin
    · have hne : c ≠ ⟨e.addr, size⟩ := by
        rintro rfl
        exact (List.nodup_append.mp hl.owned).2.2 e.addr (List.mem_map_of_mem he) e.addr haddr rfl
      exact ((Heap.apart_of_ne hl.heap hch hmem hne).of_inside hblock).symm

/-- A block is used further. -/
theorem carve (hl : Laid size al other inner live (pre ++ e :: post) allocs h) (hm : e.last ≤ m)
    (hn : m + n ≤ e.stop) :
    Laid size al other (⟨m, n⟩ :: inner) live (pre ++ { e with last := m + n } :: post) allocs h := by
  have he : e ∈ pre ++ e :: post := List.mem_append_right _ List.mem_cons_self
  have he' : { e with last := m + n } ∈ pre ++ { e with last := m + n } :: post :=
    List.mem_append_right _ List.mem_cons_self
  obtain ⟨hmem, hstop, hdvd, hge, hle⟩ := hl.block e he
  have haddrs : (pre ++ { e with last := m + n } :: post).map Extent.addr = (pre ++ e :: post).map Extent.addr := by
    simp
  have hgrows : ∀ c : Chunk, (∃ f ∈ pre ++ e :: post, c.Inside f.used) →
      ∃ f ∈ pre ++ { e with last := m + n } :: post, c.Inside f.used := by
    rintro c ⟨f, hf, hin⟩
    simp only [List.mem_append, List.mem_cons] at hf
    rcases hf with hf | rfl | hf
    · exact ⟨f, by simp [hf], hin⟩
    · refine ⟨_, he', hin.trans ⟨le_rfl, ?_⟩⟩
      simp only [Extent.used, Chunk.stop]
      omega
    · exact ⟨f, by simp [hf], hin⟩
  constructor
  · exact hl.heap
  · intro f hf
    simp only [List.mem_append, List.mem_cons] at hf
    rcases hf with hf | rfl | hf
    · exact hl.block f (by simp [hf])
    · exact ⟨hmem, hstop, hdvd, by simp only; omega, hn⟩
    · exact hl.block f (by simp [hf])
  · exact haddrs ▸ hl.owned
  · exact hl.alloc
  · exact haddrs ▸ hl.foreign
  · exact haddrs ▸ hl.origin
  · exact List.pairwise_cons.mpr ⟨hl.apart_behind he hm hn, hl.apart⟩
  · refine List.forall_mem_cons.mpr ⟨⟨_, he', ?_⟩, fun c hc => hgrows c (hl.inner c hc)⟩
    simp only [Inside, Extent.used, Chunk.stop]
    omega
  · exact fun c hc => (hl.live c hc).imp_left (hgrows c)

/-- A new block, with its first bytes kept. -/
theorem grow (hl : Laid size al other inner live blocks allocs h) (hk : k.Ok)
    (hchunks : k.chunks = ⟨a, size⟩ :: h.chunks)
    (hdvd : al ∣ a) (hw : w ≤ size) :
    Laid size al other (⟨a, w⟩ :: inner) live (blocks ++ [⟨a, a + w, a + size⟩]) allocs k := by
  have hmem : ∀ c ∈ h.chunks, c ∈ k.chunks := fun c hc => hchunks ▸ List.mem_cons_of_mem _ hc
  have hnew : (⟨a, size⟩ : Chunk) ∈ k.chunks := hchunks ▸ List.mem_cons_self
  have hnodup := hk.nodup
  rw [hchunks, List.map_cons, List.nodup_cons] at hnodup
  have hold : ∀ b ∈ blocks.map Extent.addr ++ allocs, b ∈ h.chunks.map addr := by
    intro b hb
    rcases List.mem_append.mp hb with hb | hb
    · obtain ⟨e, he, rfl⟩ := List.mem_map.mp hb
      exact List.mem_map_of_mem (hl.block e he).1
    · exact hl.alloc b hb
  have howned : ((blocks ++ [(⟨a, a + w, a + size⟩ : Extent)]).map Extent.addr ++ allocs).Perm
      (a :: (blocks.map Extent.addr ++ allocs)) := by
    rw [List.map_append, List.append_assoc]
    exact List.perm_middle
  have hkeep : ∀ c : Chunk, (∃ e ∈ blocks, c.Inside e.used) →
      ∃ e ∈ blocks ++ [⟨a, a + w, a + size⟩], c.Inside e.used := by
    rintro c ⟨e, he, hin⟩
    exact ⟨e, List.mem_append_left _ he, hin⟩
  constructor
  · exact hk
  · intro e he
    rcases List.mem_append.mp he with he | he
    · obtain ⟨hch, hrest⟩ := hl.block e he
      exact ⟨hmem _ hch, hrest⟩
    · obtain rfl := List.mem_singleton.mp he
      exact ⟨hnew, rfl, hdvd, Nat.le_add_right _ _, Nat.add_le_add_left hw a⟩
  · rw [howned.nodup_iff, List.nodup_cons]
    exact ⟨fun ha => hnodup.1 (hold a ha), hl.owned⟩
  · intro b hb
    obtain ⟨c, hc, haddr⟩ := List.mem_map.mp (hl.alloc b hb)
    exact List.mem_map.mpr ⟨c, hmem c hc, haddr⟩
  · intro c hc
    obtain ⟨hch, hno⟩ := hl.foreign c hc
    refine ⟨hmem c hch, fun hin => ?_⟩
    rcases List.mem_cons.mp (howned.mem_iff.mp hin) with heq | hin
    · have hold : c.addr ∈ h.chunks.map addr := List.mem_map_of_mem hch
      exact hnodup.1 (heq ▸ hold)
    · exact hno hin
  · intro c hc
    rw [hchunks] at hc
    rcases List.mem_cons.mp hc with rfl | hc
    · exact .inl (howned.mem_iff.mpr List.mem_cons_self)
    · exact (hl.origin c hc).imp_left fun hin => howned.mem_iff.mpr (List.mem_cons_of_mem _ hin)
  · refine List.pairwise_cons.mpr ⟨fun c hc => ?_, hl.apart⟩
    obtain ⟨d, hd, hin, hown⟩ := hl.home hc
    have hne : (⟨a, size⟩ : Chunk) ≠ d := by
      rintro rfl
      exact hnodup.1 (List.mem_map_of_mem hd)
    have hbig := (Heap.apart_of_ne hk hnew (hmem d hd) hne).of_inside hin
    have hhead : Inside ⟨a, w⟩ ⟨a, size⟩ := ⟨le_rfl, Nat.add_le_add_left hw a⟩
    exact (hbig.symm.of_inside hhead).symm
  · refine List.forall_mem_cons.mpr ⟨⟨_, List.mem_append_right _ List.mem_cons_self, ?_⟩, fun c hc =>
      hkeep c (hl.inner c hc)⟩
    simp only [Inside, Extent.used, Chunk.stop]
    omega
  · exact fun c hc => (hl.live c hc).imp (hkeep c) fun hm => ⟨hmem c hm.1, hm.2⟩

/-! ## Single chunks -/

/-- A new chunk belongs to no one. -/
theorem request (hl : Laid size al other inner live blocks allocs h) (hk : k.Ok)
    (hchunks : k.chunks = c :: h.chunks) :
    Laid size al (c :: other) inner live blocks allocs k := by
  have hmem : ∀ d ∈ h.chunks, d ∈ k.chunks := fun d hd => hchunks ▸ List.mem_cons_of_mem _ hd
  have hnodup := hk.nodup
  rw [hchunks, List.map_cons, List.nodup_cons] at hnodup
  have hno : c.addr ∉ blocks.map Extent.addr ++ allocs := by
    intro hc
    rcases List.mem_append.mp hc with hc | hc
    · obtain ⟨e, he, haddr⟩ := List.mem_map.mp hc
      exact hnodup.1 (haddr ▸ List.mem_map_of_mem (hl.block e he).1)
    · exact hnodup.1 (hl.alloc _ hc)
  constructor
  · exact hk
  · intro e he
    obtain ⟨hch, hrest⟩ := hl.block e he
    exact ⟨hmem _ hch, hrest⟩
  · exact hl.owned
  · intro a ha
    obtain ⟨d, hd, haddr⟩ := List.mem_map.mp (hl.alloc a ha)
    exact List.mem_map.mpr ⟨d, hmem d hd, haddr⟩
  · refine List.forall_mem_cons.mpr ⟨⟨hchunks ▸ List.mem_cons_self, hno⟩, fun d hd => ?_⟩
    exact ⟨hmem d (hl.foreign d hd).1, (hl.foreign d hd).2⟩
  · intro d hd
    rw [hchunks] at hd
    rcases List.mem_cons.mp hd with rfl | hd
    · exact .inr List.mem_cons_self
    · exact (hl.origin d hd).imp_right (List.mem_cons_of_mem _)
  · exact hl.apart
  · exact hl.inner
  · exact fun d hd => (hl.live d hd).imp_right fun hm => ⟨hmem d hm.1, hm.2⟩

/-- A chunk that belongs to no one is handed out as one of the arena's. -/
theorem adopt (hl : Laid size al (c :: other) inner live blocks allocs h) (hother : c ∉ other) :
    Laid size al other inner (c :: live) blocks (c.addr :: allocs) h := by
  obtain ⟨hmem, hno⟩ := hl.foreign c List.mem_cons_self
  have hperm : (blocks.map Extent.addr ++ c.addr :: allocs).Perm (c.addr :: (blocks.map Extent.addr ++ allocs)) :=
    List.perm_middle
  constructor
  · exact hl.heap
  · exact hl.block
  · rw [hperm.nodup_iff, List.nodup_cons]
    exact ⟨hno, hl.owned⟩
  · exact List.forall_mem_cons.mpr ⟨List.mem_map_of_mem hmem, hl.alloc⟩
  · intro d hd
    obtain ⟨hdm, hdno⟩ := hl.foreign d (List.mem_cons_of_mem _ hd)
    refine ⟨hdm, fun hin => ?_⟩
    rcases List.mem_cons.mp (hperm.mem_iff.mp hin) with heq | hin
    · obtain rfl := Heap.mem_of_addr_eq hl.heap hdm hmem heq
      exact hother hd
    · exact hdno hin
  · intro d hd
    rcases hl.origin d hd with hin | hin
    · exact .inl (hperm.mem_iff.mpr (List.mem_cons_of_mem _ hin))
    · rcases List.mem_cons.mp hin with rfl | hin
      · exact .inl (hperm.mem_iff.mpr List.mem_cons_self)
      · exact .inr hin
  · refine (List.Perm.pairwise_iff (fun h => h.symm) List.perm_middle).mpr ?_
    exact List.pairwise_cons.mpr ⟨hl.apart_of_notMem hmem hno, hl.apart⟩
  · exact hl.inner
  · refine List.forall_mem_cons.mpr ⟨.inr ⟨hmem, List.mem_cons_self⟩, fun d hd => ?_⟩
    exact (hl.live d hd).imp_right fun hm => ⟨hm.1, List.mem_cons_of_mem _ hm.2⟩

/-- What belongs to no one is freed. -/
theorem disown (hl : Laid size al (c :: other) inner live blocks allocs h) (hother : c ∉ other) :
    ∃ k, h.free c.addr = some k ∧ Laid size al other inner live blocks allocs k := by
  obtain ⟨hmem, hno⟩ := hl.foreign c List.mem_cons_self
  have hfree : h.free c.addr = some ⟨h.chunks.filter fun d => d.addr ≠ c.addr, h.requests⟩ := by
    rw [Heap.free, if_neg (hl.heap.pos c hmem).ne', if_pos (List.mem_map_of_mem hmem)]
  have hkeep : ∀ d ∈ h.chunks, d.addr ≠ c.addr → d ∈ h.chunks.filter fun d => d.addr ≠ c.addr := by
    intro d hd hne
    simpa [hd] using hne
  have hown : ∀ {a}, a ∈ blocks.map Extent.addr ++ allocs → a ≠ c.addr := by
    rintro a ha rfl
    exact hno ha
  refine ⟨_, hfree, ?_⟩
  constructor
  · exact hl.heap.free hfree
  · intro e he
    obtain ⟨hch, hrest⟩ := hl.block e he
    exact ⟨hkeep _ hch (hown (List.mem_append_left _ (List.mem_map_of_mem he))), hrest⟩
  · exact hl.owned
  · intro a ha
    obtain ⟨d, hd, rfl⟩ := List.mem_map.mp (hl.alloc a ha)
    exact List.mem_map_of_mem (hkeep d hd (hown (List.mem_append_right _ ha)))
  · intro d hd
    obtain ⟨hdm, hdno⟩ := hl.foreign d (List.mem_cons_of_mem _ hd)
    refine ⟨hkeep d hdm fun heq => hother ?_, hdno⟩
    rwa [← Heap.mem_of_addr_eq hl.heap hdm hmem heq]
  · intro d hd
    obtain ⟨hdm, hne⟩ := List.mem_filter.mp hd
    refine (hl.origin d hdm).imp_right fun hin => (List.mem_cons.mp hin).resolve_left ?_
    rintro rfl
    simp at hne
  · exact hl.apart
  · exact hl.inner
  · intro d hd
    refine (hl.live d hd).imp_right fun hm => ⟨hkeep d hm.1 ?_, hm.2⟩
    exact hown (List.mem_append_right _ hm.2)

/-- A single chunk is no longer one of the arena's. -/
theorem abandon (hl : Laid size al other inner live blocks (p :: allocs) h) : ∃ c, c.addr = p ∧ c ∉ other ∧
    Laid size al (c :: other) inner (live.filter fun c => c.addr ≠ p) blocks allocs h := by
  obtain ⟨c, hc, rfl⟩ := List.mem_map.mp (hl.alloc p List.mem_cons_self)
  have hperm : (blocks.map Extent.addr ++ c.addr :: allocs).Perm (c.addr :: (blocks.map Extent.addr ++ allocs)) :=
    List.perm_middle
  have hnodup := List.nodup_cons.mp (hperm.nodup_iff.mp hl.owned)
  have hno : ∀ d ∈ other, d.addr ≠ c.addr ∧ d.addr ∉ blocks.map Extent.addr ++ allocs := by
    intro d hd
    have hdno := (hl.foreign d hd).2
    rwa [hperm.mem_iff, List.mem_cons, not_or] at hdno
  refine ⟨c, rfl, fun hother => (hno c hother).1 rfl, ?_⟩
  constructor
  · exact hl.heap
  · exact hl.block
  · exact hnodup.2
  · exact fun a ha => hl.alloc a (List.mem_cons_of_mem _ ha)
  · exact List.forall_mem_cons.mpr ⟨⟨hc, hnodup.1⟩, fun d hd => ⟨(hl.foreign d hd).1, (hno d hd).2⟩⟩
  · intro d hd
    rcases hl.origin d hd with hin | hin
    · rcases List.mem_cons.mp (hperm.mem_iff.mp hin) with heq | hin
      · exact .inr (List.mem_cons.mpr (.inl (Heap.mem_of_addr_eq hl.heap hd hc heq)))
      · exact .inl hin
    · exact .inr (List.mem_cons_of_mem _ hin)
  · exact hl.apart.sublist (List.Sublist.append_left List.filter_sublist _)
  · exact hl.inner
  · intro d hd
    obtain ⟨hdl, hne⟩ := List.mem_filter.mp hd
    refine (hl.live d hdl).imp_right fun hm => ⟨hm.1, (List.mem_cons.mp hm.2).resolve_left ?_⟩
    simpa using hne

/-- A single chunk is freed, and is no longer one of those handed out. -/
theorem release (hl : Laid size al other inner live blocks (p :: allocs) h) :
    ∃ k, h.free p = some k ∧ Laid size al other inner (live.filter fun c => c.addr ≠ p) blocks allocs k := by
  obtain ⟨c, rfl, hother, hc⟩ := hl.abandon
  exact hc.disown hother

theorem releaseAll (hl : Laid size al other inner live blocks allocs h) :
    ∃ k, h.freeAll allocs = some k ∧
      Laid size al other inner (live.filter fun c => c.addr ∉ allocs) blocks [] k := by
  induction allocs generalizing live h with
  | nil => exact ⟨h, rfl, by simpa using hl⟩
  | cons p allocs ih =>
    obtain ⟨k, hfree, hk⟩ := hl.release
    obtain ⟨k', hall, hk'⟩ := ih hk
    refine ⟨k', by rw [Heap.freeAll, hfree]; exact hall, ?_⟩
    have hfilter : (live.filter fun c => c.addr ≠ p).filter (fun c => c.addr ∉ allocs) =
        live.filter fun c => c.addr ∉ p :: allocs := by
      rw [List.filter_filter]
      refine List.filter_congr fun c _ => ?_
      rw [← Bool.decide_and, decide_eq_decide, List.mem_cons, not_or, and_comm]
    rwa [hfilter] at hk'

/-! ## All of it -/

/-- The blocks are used again from behind their first bytes on, and keep what lies in these. -/
theorem rewind (hl : Laid size al other inner live blocks [] h) (hw : w ≤ size) (hsub : inner'.Sublist inner)
    (hin : ∀ c ∈ inner', ∃ e ∈ blocks, c.Inside ⟨e.addr, w⟩) :
    Laid size al other inner' [] (blocks.map fun e => { e with last := e.addr + w }) [] h := by
  have haddrs : (blocks.map fun e => { e with last := e.addr + w }).map Extent.addr = blocks.map Extent.addr := by
    simp
  constructor
  · exact hl.heap
  · intro f hf
    obtain ⟨e, he, rfl⟩ := List.mem_map.mp hf
    obtain ⟨hmem, hstop, hdvd, -, -⟩ := hl.block e he
    exact ⟨hmem, hstop, hdvd, Nat.le_add_right _ _, by simp only; omega⟩
  · exact haddrs ▸ hl.owned
  · exact hl.alloc
  · exact haddrs ▸ hl.foreign
  · exact haddrs ▸ hl.origin
  · rw [List.append_nil]
    exact (List.pairwise_append.mp hl.apart).1.sublist hsub
  · intro c hc
    obtain ⟨e, he, hin⟩ := hin c hc
    refine ⟨_, List.mem_map_of_mem he, hin.trans ⟨le_rfl, ?_⟩⟩
    simp only [Extent.used, Chunk.stop]
    omega
  · simp

/-- When all is freed, what is left are the chunks of others. -/
theorem destroy (hl : Laid size al other inner live blocks allocs h) :
    ∃ k k', h.freeAll allocs = some k ∧ k.freeAll (blocks.map Extent.addr) = some k' ∧
      ∀ c, c ∈ k'.chunks ↔ c ∈ other := by
  obtain ⟨k, hk, hlk⟩ := hl.releaseAll
  have hnodup : (blocks.map Extent.addr).Nodup := (List.nodup_append.mp hl.owned).1
  have hmem : ∀ p ∈ blocks.map Extent.addr, p ∈ k.chunks.map addr := by
    intro p hp
    obtain ⟨e, he, rfl⟩ := List.mem_map.mp hp
    exact List.mem_map_of_mem (hlk.block e he).1
  have hpos : ∀ p ∈ blocks.map Extent.addr, p ≠ 0 := by
    intro p hp
    obtain ⟨c, hc, rfl⟩ := List.mem_map.mp (hmem p hp)
    exact (hlk.heap.pos c hc).ne'
  obtain ⟨k', hk', hchunks⟩ := Heap.freeAll_spec hnodup hmem hpos
  refine ⟨k, k', hk, hk', fun c => ?_⟩
  rw [hchunks, List.mem_filter, decide_eq_true_iff]
  constructor
  · rintro ⟨hc, hno⟩
    exact (hlk.origin c hc).resolve_left (by simpa using hno)
  · intro hc
    obtain ⟨hck, hno⟩ := hlk.foreign c hc
    exact ⟨hck, by simpa using hno⟩

end Laid

end Xmap.Lib
