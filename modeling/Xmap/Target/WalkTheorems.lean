import Xmap.Lib.CyclicRange
import Xmap.Target.CyclicTheorems
import Xmap.Target.Lemmas.Calls
import Xmap.Target.ShardTheorems

/-!
# Theorems on the walk of a shard

The walk ends after its range unless its end element needs 33 bits or a product wraps. In the smaller groups
it returns the addresses of the powers in its range that are indices.
-/

namespace Xmap.Target

open Xmap.Lib

/-! ## The range -/

/-- The number of exponents from the begin to the end; the order when these are equal. -/
def XmCycle.walkLength (c : XmCycle) (n i : Nat) : Nat :=
  if exponentAt c n i = exponentAt c n ((i + 1) % n) then c.order
  else (exponentAt c n ((i + 1) % n) + (c.order - exponentAt c n i)) % c.order

/-- No product of an element of the range and the generator leaves its word. -/
def XmCycle.RangeFits (c : XmCycle) (n i : Nat) : Prop :=
  ∀ k < c.walkLength n i, c.generator ^ (exponentAt c n i + k) % c.prime * c.generator < 2 ^ 64

section
variable {c : XmCycle} {n i : Nat}

theorem walkLength_pos : 0 < c.walkLength n i := by
  have hb := exponentAt_lt (c := c) n i
  unfold XmCycle.walkLength
  split
  · omega
  · next hne =>
    exact Nat.zero_lt_of_lt (left_mem_cyclicRange hb (exponentAt_lt n ((i + 1) % n)) hne).2

theorem walkLength_le : c.walkLength n i ≤ c.order := by
  have hb := exponentAt_lt (c := c) n i
  unfold XmCycle.walkLength
  split
  · exact le_rfl
  · exact (Nat.mod_lt _ (by omega)).le

theorem exponentAt_add_walkLength :
    (exponentAt c n i + c.walkLength n i) % c.order = exponentAt c n ((i + 1) % n) := by
  have hb := exponentAt_lt (c := c) n i
  unfold XmCycle.walkLength
  split
  · next heq => rw [Nat.add_mod_right, Nat.mod_eq_of_lt hb, heq]
  · exact eq_add_mod hb (exponentAt_lt n ((i + 1) % n))

/-- In the group the walk meets its end for the first time after its range. -/
theorem firstHit_range (hg : IsGenerator c.generator c.prime) :
    FirstHit (mulMod c.generator c.prime) (· = (shardParams c n i).last) (c.start n i) (c.walkLength n i) := by
  have horder : c.order = c.prime - 1 := c.order_eq
  refine hg.firstHit walkLength_pos (horder ▸ walkLength_le) ?_
  rw [← horder, exponentAt_add_walkLength, Nat.mod_eq_of_lt (exponentAt_lt n ((i + 1) % n))]

theorem iterate_step_of_fits (hf : c.RangeFits n i) {m : Nat} (hm : m ≤ c.walkLength n i) :
    c.step^[m] (c.start n i) = (mulMod c.generator c.prime)^[m] (c.start n i) := by
  induction m with
  | zero => rfl
  | succ m ih =>
    have hk := hf m hm
    rw [Function.iterate_succ_apply', Function.iterate_succ_apply', ih (by omega), XmCycle.start,
      iterate_mulMod_pow c.isPrime.pos, XmCycle.step, mulMod, Nat.mod_eq_of_lt hk]

theorem closes_of_fits (hg : IsGenerator c.generator c.prime) (hf : c.RangeFits n i)
    (hlast : (shardParams c n i).last < 2 ^ 32) : (shardParams c n i).Closes (c.walkLength n i) := by
  have hit := firstHit_range (n := n) (i := i) hg
  refine ⟨hit.pos, ?_, fun j hj hjm hl => hit.first j hj hjm ?_⟩
  · rw [shardParams_step, shardParams_first, iterate_step_of_fits hf le_rfl]
    exact ⟨hit.hit ▸ hlast, hit.hit⟩
  · rw [shardParams_step, shardParams_first, iterate_step_of_fits hf hjm.le] at hl
    exact hl.2

/-! ## The end -/

/-- `xm_shard_create` returns, and among the calls after it, one more than the range has exponents, one returns
`XM_SHARD_DONE`. -/
def WalkEnds (cycle : XmCycle) (shardIdx numShards threadIdx numThreads : Nat) : Prop :=
  ∀ st maxTotalTargets maxIndex wblist, maxIndex < 2 ^ 64 →
    ∃ fuel s, xmShardCreate fuel st shardIdx numShards threadIdx numThreads maxTotalTargets maxIndex cycle
        wblist = some s ∧
      ∃ fuel s', nextShards fuel (cycle.walkLength (numShards * numThreads)
          (subIdx shardIdx threadIdx numThreads) + 1) s = some s' ∧ s'.current = xmShardDone

/-- The walk over the products as they wrap still meets its end, behind no more 32-bit elements than the range
has exponents. -/
def XmCycle.Detour (c : XmCycle) (n i : Nat) : Prop :=
  ∃ m, FirstHit c.step (· = (shardParams c n i).last) (c.start n i) (m + 1) ∧
    ((walk c.step (c.step (c.start n i)) m).filter (· < 2 ^ 32)).length ≤ c.walkLength n i

theorem length_picked_le (maxIndex : Nat) (ys : List Nat) :
    (ys.filter (IsPicked maxIndex)).length ≤ (ys.filter (· < 2 ^ 32)).length := by
  rw [← List.countP_eq_length_filter, ← List.countP_eq_length_filter]
  exact List.countP_mono_left fun y _ hy => decide_eq_true (of_decide_eq_true hy).1

/-- A product that wraps is no multiple of the modulus either. -/
theorem noWrapTo_zero : ∀ b < 13, NoWrapTo (2 ^ 32 - 1 - b) 0 := by decide +kernel

theorem noZero_of_isGenerator (hg : IsGenerator c.generator c.prime) : (shardParams c n i).NoZero := by
  intro y h0 hy
  have hy : y < c.prime := hy
  rw [shardParams_step, Nat.pos_iff_ne_zero]
  by_cases hfit : y * c.generator < 2 ^ 64
  · rw [XmCycle.step, Nat.mod_eq_of_lt hfit]
    intro hz
    rcases c.isPrime.dvd_mul.mp (Nat.dvd_of_mod_eq_zero hz) with hd | hd
    · exact absurd (Nat.le_of_dvd h0 hd) (by omega)
    · exact hg.ne_zero IsGenerator.order_pos.ne' ((ZMod.natCast_eq_zero_iff _ _).mpr hd)
  · have hp : c.prime = prime32 := by
      rcases groups_prime_eq_or_lt c.group with hp | hp
      · exact hp
      · have hle : y * c.generator ≤ (c.prime - 1) * c.generator := Nat.mul_le_mul_right _ (by omega)
        exact absurd (lt_of_le_of_lt hle (XmCycle.fits_of_prime_lt hp)) hfit
    have hlt := c.generator_lt
    have hy15 : y < prime32 := hp ▸ hy
    rw [show prime32 = 2 ^ 32 + 15 from rfl] at hy15
    have hmax : y * c.generator ≤ (2 ^ 32 + 14) * c.generator := Nat.mul_le_mul_right _ (by omega)
    obtain ⟨b, hb, hgen⟩ : ∃ b < 13, c.generator = 2 ^ 32 - 1 - b :=
      ⟨2 ^ 32 - 1 - c.generator, by omega, by omega⟩
    have hy32 : 2 ^ 32 ≤ y := by
      by_contra hsmall
      have : y * c.generator ≤ 2 ^ 32 * c.generator := Nat.mul_le_mul_right _ (by omega)
      omega
    obtain ⟨k, rfl⟩ := Nat.exists_eq_add_of_le hy32
    have hwrap := noWrapTo_zero b hb k (by omega) (by rw [← hgen]; omega)
    rw [← hgen] at hwrap
    rwa [XmCycle.step, hp]

theorem start_pos_of_isGenerator (hg : IsGenerator c.generator c.prime) : 0 < c.start n i :=
  hg.pow_mod_pos _

/-- With the bound 2^33 every 32-bit element is picked, and the first element is taken as it is. -/
theorem closes_of_walkEnds {shardIdx numShards threadIdx numThreads : Nat}
    (hg : IsGenerator c.generator c.prime) (hn : n = numShards * numThreads)
    (hi : i = subIdx shardIdx threadIdx numThreads) (h : WalkEnds c shardIdx numShards threadIdx numThreads) :
    ∃ m, (shardParams c n i).Closes (m + 1) ∧
      ((walk c.step (c.step (c.start n i)) m).filter (· < 2 ^ 32)).length ≤ c.walkLength n i := by
  subst hn hi
  have hpos := start_pos_of_isGenerator (n := numShards * numThreads)
    (i := subIdx shardIdx threadIdx numThreads) hg
  have hlt := c.start_lt (numShards * numThreads) (subIdx shardIdx threadIdx numThreads)
  have hp33 : c.prime < 2 ^ 33 := groups_prime_lt c.group
  obtain ⟨fuel, s, hs, fuel', s', hs', hdone⟩ := h ⟨0, 0, 0, 0, 0, 0, 0⟩ 0 (2 ^ 33) ⟨xmIptreeCreate 0⟩ (by decide)
  rw [xmShardCreate_of_valid (by
    rw [currentIndex, newShard_current, shardParams_first]
    omega)] at hs
  cases hs
  obtain ⟨l, hl, hlen⟩ :=
    nextShards_sound (s := newShard _ _ _ _ _ _ _) (noZero_of_isGenerator hg) hpos hlt hs' hdone
  obtain ⟨m, hm, rfl⟩ := hl.exists_firstHit
  refine ⟨m, hm, ?_⟩
  have hpicked : ∀ y, IsPicked (2 ^ 33) y ↔ y < 2 ^ 32 := fun y => by unfold IsPicked; omega
  simp only [newShard_maxIndex, newShard_params, newShard_current, hpicked] at hlen
  exact Nat.le_of_lt_succ hlen

/-- Where the first call is made by `xm_shard_create` already, one call less is left to make. -/
theorem walkEnds_of_closes {shardIdx numShards threadIdx numThreads m : Nat}
    (hg : IsGenerator c.generator c.prime) (hn : n = numShards * numThreads)
    (hi : i = subIdx shardIdx threadIdx numThreads) (hm : (shardParams c n i).Closes (m + 1))
    (hlen : ((walk c.step (c.step (c.start n i)) m).filter (· < 2 ^ 32)).length ≤ c.walkLength n i) :
    WalkEnds c shardIdx numShards threadIdx numThreads := by
  subst hn hi
  have hpos := start_pos_of_isGenerator (n := numShards * numThreads)
    (i := subIdx shardIdx threadIdx numThreads) hg
  have hlt := c.start_lt (numShards * numThreads) (subIdx shardIdx threadIdx numThreads)
  intro st maxTotal maxIndex wblist _
  have hscan : Scans _ _ (IsPicked maxIndex) _ _ := hm.scans
  have hle := (length_picked_le maxIndex _).trans hlen
  obtain ⟨N, hN⟩ := nextShards_complete (noZero_of_isGenerator hg) hscan hpos hlt
  by_cases hv : currentIndex (newShard st (numShards * numThreads) (subIdx shardIdx threadIdx numThreads)
      maxTotal maxIndex c wblist) < maxIndex
  · obtain ⟨s', hs', hdone⟩ := hN N le_rfl _ (Nat.lt_succ_of_le hle)
      (newShard st _ _ maxTotal maxIndex c wblist) rfl rfl rfl
    exact ⟨0, _, xmShardCreate_of_valid hv, N, s', hs', hdone⟩
  · obtain ⟨s', hs', hdone⟩ := hN N le_rfl _ (Nat.lt_succ_of_le (Nat.le_succ_of_le hle))
      (newShard st _ _ maxTotal maxIndex c wblist) rfl rfl rfl
    rw [nextShards_succ (by rw [newShard_current]; exact hpos.ne')] at hs'
    cases hn : getNextIpLoop N (newShard st (numShards * numThreads) (subIdx shardIdx threadIdx numThreads)
        maxTotal maxIndex c wblist) with
    | none => simp [hn] at hs'
    | some r =>
      simp only [hn] at hs'
      refine ⟨N, r.1, ?_, N, s', hs', hdone⟩
      rw [xmShardCreate, shardRollToValid, newShard_maxIndex, if_neg hv,
        xmShardGetNextIp_of_ne (by rw [newShard_current]; exact hpos.ne'), hn]
      rfl

/-- Creating and walking a shard ends as the range promises exactly when the end element is below 2^32 and either
no product of the range wraps or the walk over the wrapped products comes to the end as fast. -/
theorem xmShard_walkEnds_iff {c : XmCycle} (hg : IsGenerator c.generator c.prime)
    (shardIdx numShards threadIdx numThreads : Nat) :
    WalkEnds c shardIdx numShards threadIdx numThreads ↔
      (shardParams c (numShards * numThreads) (subIdx shardIdx threadIdx numThreads)).last < 2 ^ 32 ∧
        (c.RangeFits (numShards * numThreads) (subIdx shardIdx threadIdx numThreads) ∨
          c.Detour (numShards * numThreads) (subIdx shardIdx threadIdx numThreads)) := by
  constructor
  · intro h
    obtain ⟨m, hm, hlen⟩ := closes_of_walkEnds hg rfl rfl h
    have hlast := hm.hit.2 ▸ hm.hit.1
    exact ⟨hlast, Or.inr ⟨m, ⟨hm.pos, hm.hit.2, fun j hj hjm heq => hm.first j hj hjm ⟨heq ▸ hlast, heq⟩⟩, hlen⟩⟩
  · rintro ⟨hlast, hf | ⟨m, hm, hlen⟩⟩
    · obtain ⟨m, hm⟩ : ∃ m, c.walkLength (numShards * numThreads) (subIdx shardIdx threadIdx numThreads) = m + 1 :=
        ⟨_, (Nat.succ_pred_eq_of_pos walkLength_pos).symm⟩
      refine walkEnds_of_closes hg rfl rfl (m := m) (hm ▸ closes_of_fits hg hf hlast) ?_
      refine (List.length_filter_le _ _).trans ?_
      rw [walk, List.length_map, List.length_range]
      omega
    · have hclose : (shardParams c (numShards * numThreads)
          (subIdx shardIdx threadIdx numThreads)).Closes (m + 1) :=
        ⟨hm.pos, ⟨hm.hit ▸ hlast, hm.hit⟩, fun j hj hjm hl => hm.first j hj hjm hl.2⟩
      exact walkEnds_of_closes hg rfl rfl hclose hlen

end

theorem leastCycle_isGenerator : IsGenerator leastCycle.generator leastCycle.prime := by
  have : Fact (Nat.Prime 257) := ⟨sound_257.prime⟩
  have hpow : IsPrimitiveRoot ((3 : Nat) ^ 3 : ZMod 257) 256 :=
    sound_257.isGenerator.pow_of_coprime 3 (by decide)
  rw [IsGenerator, show ((leastCycle.generator : Nat) : ZMod leastCycle.prime) = (3 : Nat) ^ 3 by rfl]
  exact hpow

theorem xmShard_walkEnds_iff_first :
    WalkEnds leastCycle 0 2 1 3 ↔
      (shardParams leastCycle (2 * 3) (subIdx 0 1 3)).last < 2 ^ 32 ∧
        (leastCycle.RangeFits (2 * 3) (subIdx 0 1 3) ∨ leastCycle.Detour (2 * 3) (subIdx 0 1 3)) :=
  xmShard_walkEnds_iff leastCycle_isGenerator 0 2 1 3

/-- A cycle of the largest group with an offset of half the order. -/
def halfCycle : XmCycle where
  group := group32
  generator := 2187
  order := 4294967310
  offset := 2147483655
  generator_lt := by decide
  order_eq := rfl
  offset_lt := by decide

theorem halfCycle_isGenerator : IsGenerator halfCycle.generator halfCycle.prime := by
  have hpow : IsPrimitiveRoot ((3 : Nat) ^ 7 : ZMod prime32) (prime32 - 1) :=
    isGenerator_three.pow_of_coprime 7 (by decide)
  rwa [← Nat.cast_pow, show 3 ^ 7 = 2187 from rfl] at hpow

theorem halfCycle_last : (shardParams halfCycle (1 * 1) (subIdx 0 0 1)).last = prime32 - 1 := by
  have hexp : exponentAt halfCycle (1 * 1) ((subIdx 0 0 1 + 1) % (1 * 1)) = 2147483655 := by decide
  rw [shardParams_last, XmCycle.start, hexp]
  exact IsGenerator.pow_half halfCycle.isPrime rfl (by decide) halfCycle_isGenerator

/-- The whole walk starts and ends at -1, which needs 33 bits and is skipped before it is compared. -/
theorem xmShard_walk_endless :
    IsGenerator halfCycle.generator halfCycle.prime ∧ ¬ WalkEnds halfCycle 0 1 0 1 := by
  refine ⟨halfCycle_isGenerator, fun h => ?_⟩
  obtain ⟨m, hm, -⟩ := closes_of_walkEnds halfCycle_isGenerator rfl rfl h
  have := hm.hit.2 ▸ hm.hit.1
  rw [halfCycle_last] at this
  exact absurd this (by decide)

/-! ## The filtered orbit -/

/-- The exponents met from the begin up to, not including, the end. -/
def XmCycle.exponents (c : XmCycle) (n i : Nat) : List Nat :=
  (List.range (c.walkLength n i)).map fun k => (exponentAt c n i + k) % c.order

/-- The addresses of those powers, in the order of their exponents, that are indices plus one. -/
def orbitIps (cycle : XmCycle) (wblist : XmWblist) (maxIndex n i : Nat) : List Nat :=
  ((cycle.exponents n i).filter fun k => cycle.generator ^ k % cycle.prime ≤ maxIndex).map fun k =>
    (xmWblistLookupIndex wblist (cycle.generator ^ k % cycle.prime - 1)).2

section
variable {c : XmCycle} {n i : Nat}

theorem walk_eq_powers (hg : IsGenerator c.generator c.prime) (hf : c.Fits) :
    walk (shardParams c n i).step (shardParams c n i).first (c.walkLength n i) =
      (c.exponents n i).map fun k => c.generator ^ k % c.prime := by
  have horder : c.order = c.prime - 1 := c.order_eq
  rw [shardParams_step, shardParams_first, XmCycle.walk_step_eq hf (c.start_lt n i), walk, XmCycle.exponents,
    List.map_map]
  refine List.map_congr_left fun k _ => ?_
  rw [XmCycle.start, iterate_mulMod_pow c.isPrime.pos, Function.comp_apply, hg.pow_mod_eq_iff, horder,
    Nat.mod_mod]

theorem rangeFits_of_fits (hf : c.Fits) : c.RangeFits n i := by
  intro k _
  have hlt : c.generator ^ (exponentAt c n i + k) % c.prime < c.prime := Nat.mod_lt _ c.isPrime.pos
  exact lt_of_le_of_lt (Nat.mul_le_mul_right _ (by omega)) hf

theorem visits_ne_nil (hg : IsGenerator c.generator c.prime) (hf : c.Fits) {maxIndex : Nat}
    (h : ∃ k ∈ c.exponents n i, c.generator ^ k % c.prime ≤ maxIndex) :
    (shardParams c n i).visits maxIndex (c.walkLength n i) ≠ [] := by
  obtain ⟨k, hk, hle⟩ := h
  rw [ShardParams.visits, walk_eq_powers hg hf]
  refine List.ne_nil_of_mem (List.mem_filter.mpr ⟨List.mem_map_of_mem hk, ?_⟩)
  exact decide_eq_true ⟨hg.pow_mod_pos k, hle⟩

theorem orbitIps_eq (hg : IsGenerator c.generator c.prime) (hf : c.Fits) (wblist : XmWblist) (maxIndex : Nat) :
    orbitIps c wblist maxIndex n i =
      ((shardParams c n i).visits maxIndex (c.walkLength n i)).map (elemAddr wblist) := by
  rw [orbitIps, ShardParams.visits, walk_eq_powers hg hf, List.filter_map, List.map_map]
  have hvalid : (fun k => decide (c.generator ^ k % c.prime ≤ maxIndex)) =
      (fun y => decide (IsValid maxIndex y)) ∘ fun k => c.generator ^ k % c.prime := by
    funext k
    have hpos := hg.pow_mod_pos k
    exact decide_eq_decide.mpr ⟨fun hle => ⟨hpos, hle⟩, fun hv => hv.2⟩
  rw [hvalid]
  rfl

end

/-- In the smaller groups the current address of a shard and the ones of the calls after it are those of the
powers of its range that are indices, and `XM_SHARD_DONE` behind them. -/
theorem xmShard_filtered_orbit {h : Host} {args : WblistArgs} {wblist : XmWblist}
    (hw : xmWblistCreate h args = some wblist) {c : XmCycle} (hp : c.prime < 2 ^ 32)
    (hg : IsGenerator c.generator c.prime) (st : ShardState)
    (shardIdx numShards threadIdx numThreads maxTotalTargets : Nat)
    (hmeets : ∃ k ∈ c.exponents (numShards * numThreads) (subIdx shardIdx threadIdx numThreads),
      c.generator ^ k % c.prime ≤ xmWblistCountAllowed wblist) :
    (∀ ip ∈ orbitIps c wblist (xmWblistCountAllowed wblist) (numShards * numThreads)
        (subIdx shardIdx threadIdx numThreads), ip ≠ xmShardDone) ∧
      ∃ fuel s, xmShardCreate fuel st shardIdx numShards threadIdx numThreads maxTotalTargets
          (xmWblistCountAllowed wblist) c wblist = some s ∧
        ∃ fuel, ∀ n, curAndNextIps fuel n s = some ((List.range (n + 1)).map fun j =>
          (orbitIps c wblist (xmWblistCountAllowed wblist) (numShards * numThreads)
            (subIdx shardIdx threadIdx numThreads)).getD j xmShardDone) := by
  obtain ⟨rfl, hne⟩ := xmWblistCreate_eq_some.mp hw
  have hf := XmCycle.fits_of_prime_lt hp
  have hlast : (shardParams c (numShards * numThreads) (subIdx shardIdx threadIdx numThreads)).last < 2 ^ 32 :=
    lt_trans (c.start_lt ..) hp
  have hready := builtList_ready hne
  rw [builtList_count_eq] at hmeets ⊢
  rw [orbitIps_eq hg hf]
  refine ⟨fun ip hip => ?_, ?_⟩
  · obtain ⟨y, hy, rfl⟩ := List.mem_map.mp hip
    exact hready.addr_ne y (of_decide_eq_true (List.mem_filter.mp hy).2)
  · generalize (numbering h args).length = maxIndex at *
    generalize hs : newShard st (numShards * numThreads) (subIdx shardIdx threadIdx numThreads) maxTotalTargets
      maxIndex c (builtList h args) = s
    obtain ⟨fuel, r, hroll, hips⟩ := curAndNextIps_of_visits (s := s) (by rw [← hs]; exact hready)
      (by rw [← hs]; exact (start_pos_of_isGenerator hg).ne') (by rw [← hs]; exact newShard_current_lt ..)
      (by rw [← hs]; rfl) (by rw [← hs]; exact closes_of_fits hg (rangeFits_of_fits hf) hlast)
      (by rw [← hs]; exact visits_ne_nil hg hf hmeets)
    rw [← hs] at hroll hips
    exact ⟨fuel, r.1, Option.map_eq_some_iff.mpr ⟨r, hroll, rfl⟩, hips⟩

theorem xmShard_filtered_orbit_host :
    (∀ ip ∈ orbitIps leastCycle (builtList quadHost hostArgs)
        (xmWblistCountAllowed (builtList quadHost hostArgs)) (1 * 1) (subIdx 0 0 1), ip ≠ xmShardDone) ∧
      ∃ fuel s, xmShardCreate fuel zeroState 0 1 0 1 0 (xmWblistCountAllowed (builtList quadHost hostArgs))
          leastCycle (builtList quadHost hostArgs) = some s ∧
        ∃ fuel, ∀ n, curAndNextIps fuel n s = some ((List.range (n + 1)).map fun j =>
          (orbitIps leastCycle (builtList quadHost hostArgs)
            (xmWblistCountAllowed (builtList quadHost hostArgs)) (1 * 1) (subIdx 0 0 1)).getD j xmShardDone) :=
  xmShard_filtered_orbit hostArgs_create (by decide) leastCycle_isGenerator zeroState 0 1 0 1 0
    ⟨0, List.mem_map.mpr ⟨0, List.mem_range.mpr walkLength_pos, rfl⟩, by rw [hostArgs_count]; decide⟩

end Xmap.Target
