import Xmap.Lib.PrefixTrie

/-!
# Inserting blocks one after another

A block is the set of paths that share some first bits. Blocks are inserted into a trie with one
value, on top of blocks that hold another value. A block takes effect unless a block below it has
split its node before, or an earlier one already covers it.
-/

namespace Xmap.Lib

/-- The paths that agree with `path` on the first `len` bits. -/
structure Block where
  path : Path
  len : Nat

namespace Block

def Covers (e : Block) (p : Path) : Prop := Agree e.len e.path p

/-- The block lies strictly below depth `n` on the path. -/
def Below (e : Block) (p : Path) (n : Nat) : Prop := n < e.len ∧ Agree n e.path p

def Overlaps (e f : Block) : Prop := e.Covers f.path ∧ e.len ≤ f.len ∨ e.Below f.path f.len

instance (e : Block) (p : Path) : Decidable (e.Covers p) := inferInstanceAs (Decidable (Agree _ _ _))

instance (e : Block) (p : Path) (n : Nat) : Decidable (e.Below p n) :=
  inferInstanceAs (Decidable (_ ∧ _))

instance (e f : Block) : Decidable (e.Overlaps f) := inferInstanceAs (Decidable (_ ∨ _))

/-- All paths. -/
def whole : Block := ⟨fun _ => false, 0⟩

@[simp] theorem whole_covers (p : Path) : whole.Covers p := agree_zero _ _

@[simp] theorem not_whole_below (p : Path) (n : Nat) : ¬ whole.Below p n :=
  fun h => Nat.not_lt_zero n h.1

end Block

/-- The blocks of `es` that take effect on top of `base`, after those of `acc`. -/
def effective (base : List Block) : List Block → List Block → List Block
  | acc, [] => acc
  | acc, e :: es =>
      if (∃ w ∈ base, w.Below e.path e.len) ∨ ∃ f ∈ acc, f.Overlaps e then effective base acc es
      else effective base (acc ++ [e]) es

theorem mem_effective {base acc es : List Block} {e : Block} (h : e ∈ effective base acc es) :
    e ∈ acc ∨ e ∈ es := by
  induction es generalizing acc with
  | nil => exact Or.inl h
  | cons d es ih =>
    rw [effective] at h
    split at h
    · rcases ih h with h | h
      · exact Or.inl h
      · exact Or.inr (List.mem_cons_of_mem _ h)
    · rcases ih h with h | h
      · rcases List.mem_append.mp h with h | h
        · exact Or.inl h
        · rw [List.mem_singleton.mp h]
          exact Or.inr List.mem_cons_self
      · exact Or.inr (List.mem_cons_of_mem _ h)

theorem effective_pairwise {base acc es : List Block}
    (h : acc.Pairwise fun f e => ¬ f.Overlaps e) :
    (effective base acc es).Pairwise fun f e => ¬ f.Overlaps e := by
  induction es generalizing acc with
  | nil => exact h
  | cons e es ih =>
    rw [effective]
    split
    · exact ih h
    · rename_i hn
      refine ih (List.pairwise_append.mpr ⟨h, List.pairwise_singleton _ _, ?_⟩)
      intro f hf e' he'
      rw [List.mem_singleton.mp he']
      exact fun ho => hn (Or.inr ⟨f, hf, ho⟩)

theorem Block.overlaps_of_covers {e f : Block} {p : Path} (he : e.Covers p) (hf : f.Covers p) :
    e.Overlaps f := by
  by_cases hlen : e.len ≤ f.len
  · exact Or.inl ⟨fun i hi => (he i hi).trans (hf i (by omega)).symm, hlen⟩
  · exact Or.inr ⟨by omega, fun i hi => (he i (by omega)).trans (hf i hi).symm⟩

theorem eq_of_covers {l : List Block} (hl : l.Pairwise fun f e => ¬ f.Overlaps e) {e f : Block}
    {p : Path} (he : e ∈ l) (hf : f ∈ l) (hep : e.Covers p) (hfp : f.Covers p) : e = f := by
  by_contra hne
  have : Std.Symm fun f e : Block => ¬ (f.Covers p ∧ e.Covers p) :=
    ⟨fun _ _ h hc => h hc.symm⟩
  have hdis : l.Pairwise fun f e => ¬ (f.Covers p ∧ e.Covers p) :=
    hl.imp fun h hc => h (Block.overlaps_of_covers hc.1 hc.2)
  exact hdis.forall he hf hne ⟨hep, hfp⟩

namespace Trie

variable {V : Type} [DecidableEq V]

/-- Inserts the blocks in order. -/
def insertAll (v : V) (t : Trie V) (es : List Block) : Trie V :=
  es.foldl (fun t e => t.insert v e.len e.path) t

@[simp] theorem insertAll_cons (v : V) (t : Trie V) (e : Block) (es : List Block) :
    t.insertAll v (e :: es) = (t.insert v e.len e.path).insertAll v es := rfl

/-- The trie has value `u` on the blocks of `base` outside those of `acc`, value `v` elsewhere, and
is split exactly above the blocks that changed it. -/
structure Layered (t : Trie V) (u v : V) (base acc : List Block) : Prop where
  lookup_eq : ∀ p, t.lookup p = u ↔ (∃ w ∈ base, w.Covers p) ∧ ¬ ∃ d ∈ acc, d.Covers p
  lookup_or : ∀ p, t.lookup p = u ∨ t.lookup p = v
  splitAt_iff : ∀ p n, t.SplitAt p n ↔ (∃ w ∈ base, w.Below p n) ∨
    ∃ d ∈ acc, d.Below p n ∧ ∃ w ∈ base, w.Covers d.path

omit [DecidableEq V] in
theorem layered_leaf {u v : V} : (leaf u).Layered u v [Block.whole] [] where
  lookup_eq p := by simp [lookup]
  lookup_or p := by simp [lookup]
  splitAt_iff p n := by simp

/-- An earlier block that covers the new one or lies below it, or a base block below it, leaves the
new one without effect. -/
theorem Layered.insert_dropped {t : Trie V} {u v : V} {base acc : List Block} {e : Block}
    (ht : t.Layered u v base acc)
    (he : (∃ w ∈ base, w.Below e.path e.len) ∨ ∃ f ∈ acc, f.Overlaps e) :
    (t.insert v e.len e.path).Layered u v base acc := by
  -- the node of the block is split, or the whole block has the value already
  have hcase : t.SplitAt e.path e.len ∨ ∀ p, e.Covers p → t.lookup p = v := by
    by_cases hs : t.SplitAt e.path e.len
    · exact Or.inl hs
    · right
      intro p hp
      rw [← lookup_congr_of_not_splitAt hp hs]
      refine (ht.lookup_or e.path).resolve_left fun hu => ?_
      obtain ⟨⟨w, hw, hwe⟩, hacc⟩ := (ht.lookup_eq e.path).mp hu
      rw [ht.splitAt_iff] at hs
      rcases he with he | ⟨f, hf, ⟨hc, _⟩ | hb⟩
      · exact hs (Or.inl he)
      · exact hacc ⟨f, hf, hc⟩
      · -- `w` is no longer than the block, so it covers `f` too and the node is split
        have hlen : w.len ≤ e.len := by
          by_contra hlt
          exact hs (Or.inl ⟨w, hw, by omega, hwe.mono (by omega)⟩)
        exact hs (Or.inr ⟨f, hf, hb, w, hw, fun i hi =>
          (hwe i hi).trans (hb.2 i (by omega)).symm⟩)
  have hl : ∀ p, (t.insert v e.len e.path).lookup p = t.lookup p := by
    intro p
    rw [lookup_insert]
    split
    · rename_i h
      rcases hcase with hs | hv
      · exact absurd hs h.2
      · exact (hv p h.1).symm
    · rfl
  have hsp : ∀ p n, (t.insert v e.len e.path).SplitAt p n ↔ t.SplitAt p n := by
    intro p n
    rw [splitAt_insert]
    refine ⟨fun h => h.elim id ?_, Or.inl⟩
    rintro ⟨hn, ha, hne⟩
    rcases hcase with hs | hv
    · exact (hs.mono (by omega)).congr ha
    · exact absurd (hv e.path (fun _ _ => rfl)) hne
  exact ⟨fun p => by rw [hl, ht.lookup_eq], fun p => by rw [hl]; exact ht.lookup_or p,
    fun p n => by rw [hsp, ht.splitAt_iff]⟩

theorem Layered.insert_effective {t : Trie V} {u v : V} {base acc : List Block} {e : Block}
    (huv : u ≠ v) (ht : t.Layered u v base acc)
    (he : ¬ ((∃ w ∈ base, w.Below e.path e.len) ∨ ∃ f ∈ acc, f.Overlaps e)) :
    (t.insert v e.len e.path).Layered u v base (acc ++ [e]) := by
  obtain ⟨hbase, hacc⟩ := not_or.mp he
  have hs : ¬ t.SplitAt e.path e.len := by
    rw [ht.splitAt_iff]
    rintro (h | ⟨d, hd, hb, _⟩)
    · exact hbase h
    · exact hacc ⟨d, hd, Or.inr hb⟩
  have hfree : ¬ ∃ d ∈ acc, d.Covers e.path := by
    rintro ⟨d, hd, hc⟩
    refine hacc ⟨d, hd, ?_⟩
    by_cases hlen : d.len ≤ e.len
    · exact Or.inl ⟨hc, hlen⟩
    · exact Or.inr ⟨by omega, hc.mono (by omega)⟩
  refine ⟨fun p => ?_, fun p => ?_, fun p n => ?_⟩
  · rw [lookup_insert]
    by_cases hp : Agree e.len e.path p
    · rw [if_pos ⟨hp, hs⟩]
      refine iff_of_false (Ne.symm huv) ?_
      rintro ⟨_, h⟩
      exact h ⟨e, by simp, hp⟩
    · rw [if_neg (fun h => hp h.1), ht.lookup_eq]
      have hnew : (∃ d ∈ acc ++ [e], d.Covers p) ↔ ∃ d ∈ acc, d.Covers p := by
        constructor
        · rintro ⟨d, hd, hc⟩
          rcases List.mem_append.mp hd with hd | hd
          · exact ⟨d, hd, hc⟩
          · rw [List.mem_singleton.mp hd] at hc
            exact absurd hc hp
        · rintro ⟨d, hd, hc⟩
          exact ⟨d, List.mem_append_left _ hd, hc⟩
      rw [hnew]
  · rw [lookup_insert]
    split
    · exact Or.inr rfl
    · exact ht.lookup_or p
  · have hval : t.lookup e.path ≠ v ↔ ∃ w ∈ base, w.Covers e.path := by
      constructor
      · intro hne
        exact ((ht.lookup_eq e.path).mp ((ht.lookup_or e.path).resolve_right hne)).1
      · intro hw hv
        exact huv (((ht.lookup_eq e.path).mpr ⟨hw, hfree⟩).symm.trans hv)
    rw [splitAt_insert, ht.splitAt_iff, hval, or_assoc]
    refine or_congr_right ⟨?_, ?_⟩
    · rintro (⟨d, hd, h⟩ | ⟨hn, ha, hw⟩)
      · exact ⟨d, List.mem_append_left _ hd, h⟩
      · exact ⟨e, by simp, ⟨hn, ha⟩, hw⟩
    · rintro ⟨d, hd, hb, hw⟩
      rcases List.mem_append.mp hd with hd | hd
      · exact Or.inl ⟨d, hd, hb, hw⟩
      · obtain rfl := List.mem_singleton.mp hd
        exact Or.inr ⟨hb.1, hb.2, hw⟩

/-- A run of insertions keeps the layers, with the effective blocks on top. -/
theorem Layered.insertAll {t : Trie V} {u v : V} {base acc es : List Block} (huv : u ≠ v)
    (ht : t.Layered u v base acc) :
    (t.insertAll v es).Layered u v base (effective base acc es) := by
  induction es generalizing t acc with
  | nil => exact ht
  | cons e es ih =>
    rw [insertAll_cons, effective]
    split
    · exact ih (ht.insert_dropped ‹_›)
    · exact ih (ht.insert_effective huv ‹_›)

omit [DecidableEq V] in
/-- The top layer over the whole trie is the base of the next one. -/
theorem Layered.flip {t : Trie V} {u v : V} {acc : List Block} (huv : u ≠ v)
    (ht : t.Layered u v [Block.whole] acc) : t.Layered v u acc [] where
  lookup_eq p := by
    have h := ht.lookup_eq p
    have ho := ht.lookup_or p
    simp only [List.mem_singleton, exists_eq_left, Block.whole_covers, true_and] at h
    simp only [List.not_mem_nil, false_and, exists_false, not_false_eq_true, and_true]
    constructor
    · intro hv
      by_contra hn
      exact huv ((h.mpr hn).symm.trans hv)
    · intro hc
      exact ho.resolve_left fun hu => h.mp hu hc
  lookup_or p := (ht.lookup_or p).symm
  splitAt_iff p n := by simp [ht.splitAt_iff]

end Trie

end Xmap.Lib
