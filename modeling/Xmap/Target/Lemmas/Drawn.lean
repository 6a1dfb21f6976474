import Xmap.Target.Lemmas.Overflow
import Xmap.Target.Scan

/-!
# Shards of drawn cycles

The cycles that `xm_make_cycle` draws, and what the shards of such a cycle emit.
-/

namespace Xmap.Target

open Xmap.Lib

/-! ## The group of a list -/

theorem lt_prime_of_get {L : Nat} {g : GroupPtr} (h : xmGetCyclicGroup L = some g) :
    L < g.val.prime := by
  simpa using List.find?_some h

/-- The largest group is taken for lists that the next smaller one cannot hold. -/
theorem le_of_get_prime32 {L : Nat} {g : GroupPtr} (h : xmGetCyclicGroup L = some g)
    (hp : g.val.prime = prime32) : 268435459 ≤ L := by
  obtain ⟨_, as, bs, he, hno⟩ := List.find?_eq_some_iff_append.mp h
  have hsorted : groups.attach.Pairwise fun a b => a.val.prime < b.val.prime := by decide
  have hmem := List.mem_attach groups ⟨⟨268435459, 2, [2, 3, 19, 87211]⟩, by decide⟩
  rw [he] at hsorted hmem
  rcases List.mem_append.mp hmem with hm | hm
  · simpa using hno _ hm
  · have hle : g.val.prime ≤ 268435459 := by
      rcases List.mem_cons.mp hm with hm | hm
      · rw [← hm]
      · exact ((List.pairwise_cons.mp (List.pairwise_append.mp hsorted).2.1).1 _ hm).le
    exact absurd hle (by rw [hp]; decide)

/-! ## Drawn cycles -/

/-- What is known of a drawn cycle. -/
structure XmCycle.Drawn (c : XmCycle) : Prop where
  pos : 0 < c.generator
  lt : c.generator < c.prime
  cases : IsGenerator c.generator c.prime ∨ c.prime = prime32 ∧ c.generator < 15

/-- The cycle drawn for a list of `count` addresses, and the words that are left. -/
def Draws (count : Nat) (aes : XmAesrand) (c : XmCycle) (aes' : XmAesrand) : Prop :=
  ∃ g, xmGetCyclicGroup count = some g ∧ xmMakeCycle g aes = some (c, aes')

theorem Draws.unique {count : Nat} {aes aes₁ aes₂ : XmAesrand} {c₁ c₂ : XmCycle}
    (h₁ : Draws count aes c₁ aes₁) (h₂ : Draws count aes c₂ aes₂) : c₁ = c₂ ∧ aes₁ = aes₂ := by
  obtain ⟨g, hg, hc⟩ := h₁
  obtain ⟨g', hg', hc'⟩ := h₂
  obtain rfl : g = g' := Option.some.inj (hg.symm.trans hg')
  exact Prod.mk.inj (Option.some.inj (hc.symm.trans hc'))

theorem xmMakeCycle_eq_some {g : GroupPtr} {aes aes' : XmAesrand} {c : XmCycle}
    (h : xmMakeCycle g aes = some (c, aes')) :
    c.group = g ∧ (findPrimroot g.val aes).1 = some c.generator := by
  unfold xmMakeCycle at h
  split at h
  · cases h
  · rename_i hg
    cases h
    exact ⟨rfl, hg⟩

theorem drawn_of_make {g : GroupPtr} {aes aes' : XmAesrand} {c : XmCycle}
    (h : xmMakeCycle g aes = some (c, aes')) : c.Drawn := by
  obtain ⟨rfl, hr⟩ := xmMakeCycle_eq_some h
  obtain ⟨x, _, hx, _, he⟩ := findPrimroot_eq (groups_sound c.group) hr
  obtain ⟨hpos, hcases⟩ := findPrimroot_cases c.group hr
  refine ⟨hpos, ?_, hcases⟩
  rw [he]
  exact lt_of_le_of_lt (Nat.mod_le _ _) hx

theorem Draws.drawn {count : Nat} {aes aes' : XmAesrand} {c : XmCycle}
    (h : Draws count aes c aes') : c.Drawn := by
  obtain ⟨g, _, hc⟩ := h
  exact drawn_of_make hc

theorem Draws.lt_prime {count : Nat} {aes aes' : XmAesrand} {c : XmCycle}
    (h : Draws count aes c aes') : count < c.prime := by
  obtain ⟨g, hg, hc⟩ := h
  obtain ⟨rfl, _⟩ := xmMakeCycle_eq_some hc
  exact lt_prime_of_get hg

theorem Draws.le_of_prime32 {count : Nat} {aes aes' : XmAesrand} {c : XmCycle}
    (h : Draws count aes c aes') (hp : c.prime = prime32) : 268435459 ≤ count := by
  obtain ⟨g, hg, hc⟩ := h
  obtain ⟨rfl, _⟩ := xmMakeCycle_eq_some hc
  exact le_of_get_prime32 hg hp

theorem XmCycle.Drawn.start_pos {c : XmCycle} (hd : c.Drawn) (n i : Nat) : 0 < c.start n i := by
  rw [Nat.pos_iff_ne_zero]
  intro hz
  have hdvd := c.isPrime.dvd_of_dvd_pow (Nat.dvd_of_mod_eq_zero hz)
  exact absurd (Nat.le_of_dvd hd.pos hdvd) (by have := hd.lt; omega)

/-! ## Emissions -/

theorem xmShardCreate_emits {st : ShardState} {shardIdx numShards threadIdx numThreads maxTotal
    maxIndex : Nat} {c : XmCycle} {wblist : XmWblist} {out : List Nat} :
    (∃ fuel s, xmShardCreate fuel st shardIdx numShards threadIdx numThreads maxTotal maxIndex c
        wblist = some s ∧ ∃ fuel, emit fuel s = some out) ↔
      Emits (newShard st (numShards * numThreads) (subIdx shardIdx threadIdx numThreads) maxTotal
        maxIndex c wblist) out := by
  simp only [xmShardCreate, Option.map_eq_some_iff, Emits]
  constructor
  · rintro ⟨fuel, s, ⟨r, hr, rfl⟩, hout⟩
    exact ⟨fuel, r, hr, hout⟩
  · rintro ⟨fuel, r, hr, hout⟩
    exact ⟨fuel, r.1, ⟨r, hr, rfl⟩, hout⟩

variable {h : Host} {args : WblistArgs}

/-- A shard of a drawn cycle emits the addresses of what its walk meets. -/
theorem XmCycle.Drawn.emits {c : XmCycle} (hd : c.Drawn) (hne : numbering h args ≠ [])
    {st : ShardState} {n i maxTotal : Nat} {out : List Nat} :
    Emits (newShard st n i maxTotal (numbering h args).length c (builtList h args)) out ↔
      ∃ m, (shardParams c n i).Closes m ∧ out = addrsOf (builtList h args)
        ((shardParams c n i).visits (numbering h args).length m) := by
  have hr : Ready (newShard st n i maxTotal (numbering h args).length c (builtList h args)).maxIndex
      (newShard st n i maxTotal (numbering h args).length c (builtList h args)).wblist := by
    rw [newShard_maxIndex, newShard_wblist]
    exact builtList_ready hne
  rw [emits_iff_closes hr (by rw [newShard_current]; exact (hd.start_pos n i).ne')
    (newShard_current_lt ..) (by rw [newShard_current, newShard_params]), newShard_params,
    newShard_maxIndex, newShard_wblist]

theorem visits_of_closes {ps : Nat → ShardParams} {n L : Nat} {ms : Nat → Nat}
    (hclose : ∀ i < n, (ps i).Closes (ms i)) : Visits L n fun i => (ps i).visits L (ms i) where
  nodup _ hi := (FirstHit.walk_nodup (hclose _ hi)).filter _
  valid _ _ _ hy := of_decide_eq_true (List.mem_filter.mp hy).2

end Xmap.Target
