import Xmap.Target.Emission
import Xmap.Target.ScanTheorems

/-!
# Theorems on the senders of one instance

When the sender threads of an instance together emit every allowed address exactly once.
-/

namespace Xmap.Target

open Xmap.Lib

def workContext (wblist : XmWblist) (senders maxTargets : Nat) : SendContext :=
  { shardNum := 0, totalShards := 1, senders := senders, maxTargets := maxTargets, wblist := wblist }

/-- The senders of one instance emit every allowed address, each one once. -/
def WorkCovers (st : Nat → ShardState) (wblist : XmWblist) (aes : XmAesrand)
    (senders maxTargets : Nat) : Prop :=
  ∃ outs, WorkEmits st (workContext wblist senders maxTargets) aes outs ∧ outs.flatten.Nodup ∧
    ∀ ip < 2 ^ 32, ip ∈ outs.flatten ↔ xmWblistIsAllowed wblist ip = true

/-- The valid elements that sender `t` meets on the walk along its own cycle, which closes. -/
def SenderMeets (count : Nat) (aes : XmAesrand) (senders t : Nat) (ys : List Nat) : Prop :=
  ∃ c, SenderDraws count aes t c ∧
    ∃ m, (shardParams c senders (t + 1)).Closes m ∧
      ys = (shardParams c senders (t + 1)).visits count m

/-- The powers of range `i` of `n` that are indices plus one. -/
def XmCycle.validPowers (c : XmCycle) (maxIndex n i : Nat) : List Nat :=
  ((c.exponents n i).map fun k => c.generator ^ k % c.prime).filter fun y => IsValid maxIndex y

/-- Sender `t` takes range `t + 1` of the cycle `cs t`. The elements at the ends of these ranges fit 32 bits, and
each index plus one is a power in exactly one of them, where every range has some and no allowed address is without
an index; or one range has none, and its stray address is the one that the powers leave out. -/
def SendersSettle (wblist : XmWblist) (cs : Nat → XmCycle) (senders : Nat) : Prop :=
  (∀ t < senders, (cs t).start senders ((t + 1 + 1) % senders) < 2 ^ 32) ∧
    let powers := fun t => (cs t).validPowers (xmWblistCountAllowed wblist) senders (t + 1)
    CoversPlainly wblist (xmWblistCountAllowed wblist) senders powers ∨
      ∃ k, CoversByStray wblist (xmWblistCountAllowed wblist) senders powers k

section
variable {h : Host} {args : WblistArgs} {wblist : XmWblist} {aes : XmAesrand} {st : Nat → ShardState}
  {senders maxTargets : Nat}

theorem partition_iff_flatten {outs : Nat → List Nat} :
    Partition wblist senders outs ↔
      ((List.range senders).map outs).flatten.Nodup ∧
        ∀ ip < 2 ^ 32, ip ∈ ((List.range senders).map outs).flatten ↔
          xmWblistIsAllowed wblist ip = true := by
  have hmem : ∀ ip, ip ∈ ((List.range senders).map outs).flatten ↔ ∃ t < senders, ip ∈ outs t := by
    simp
  simp only [hmem]
  rw [List.nodup_flatten, List.pairwise_map]
  constructor
  · intro hp
    refine ⟨⟨fun l hl => ?_, ?_⟩, hp.union⟩
    · obtain ⟨t, ht, rfl⟩ := List.mem_map.mp hl
      exact hp.nodup t (List.mem_range.mp ht)
    · refine List.nodup_range.imp_of_mem fun ht hu htu ip hip hiu => ?_
      exact hp.disjoint _ (List.mem_range.mp ht) _ (List.mem_range.mp hu) htu ip hip hiu
  · rintro ⟨⟨hnd, hdis⟩, hunion⟩
    refine ⟨fun t ht => hnd _ (List.mem_map_of_mem (List.mem_range.mpr ht)), ?_, hunion⟩
    have : Std.Symm fun t u => List.Disjoint (outs t) (outs u) := ⟨fun _ _ hd => hd.symm⟩
    intro t ht u hu htu ip hip hiu
    exact hdis.forall (List.mem_range.mpr ht) (List.mem_range.mpr hu) htu hip hiu

/-- A sender emits what it meets. -/
theorem sender_emits_iff {st : ShardState} (hw : xmWblistCreate h args = some wblist)
    (hs : senders < 2 ^ 8) {t : Nat} (ht : t < senders) {out : List Nat} :
    (∃ c, SenderDraws (xmWblistCountAllowed wblist) aes t c ∧
        ∃ fuel s, SenderShard fuel st (workContext wblist senders maxTargets) c ((t + 1) % 2 ^ 8) s ∧
          ∃ fuel, emit fuel s = some out) ↔
      ∃ ys, SenderMeets (xmWblistCountAllowed wblist) aes senders t ys ∧ out = addrsOf wblist ys := by
  obtain ⟨rfl, hne⟩ := xmWblistCreate_eq_some.mp hw
  have hidx : (t + 1) % 2 ^ 8 = t + 1 := Nat.mod_eq_of_lt (by omega)
  have hmax : sendMaxIndex (numbering h args).length = (numbering h args).length := by
    have hlt : (numbering h args).length < 2 ^ 32 := length_numbering_lt
    rw [sendMaxIndex, if_neg (by omega), Nat.mod_eq_of_lt hlt]
  have hemits : ∀ c, SenderDraws (xmWblistCountAllowed (builtList h args)) aes t c →
      ((∃ fuel s, SenderShard fuel st (workContext (builtList h args) senders maxTargets) c
          ((t + 1) % 2 ^ 8) s ∧ ∃ fuel, emit fuel s = some out) ↔
        ∃ m, (shardParams c senders (t + 1)).Closes m ∧ out = addrsOf (builtList h args)
          ((shardParams c senders (t + 1)).visits (numbering h args).length m)) := by
    rintro c ⟨_, hd⟩
    simp only [SenderShard, workContext, hidx]
    rw [xmShardCreate_emits, subIdx, Nat.one_mul, Nat.zero_mul, Nat.zero_add, builtList_count_eq,
      hmax]
    exact hd.drawn.emits hne
  rw [builtList_count_eq] at hemits ⊢
  constructor
  · rintro ⟨c, hd, he⟩
    obtain ⟨m, hm, rfl⟩ := (hemits c hd).mp he
    exact ⟨_, ⟨c, hd, m, hm, rfl⟩, rfl⟩
  · rintro ⟨_, ⟨c, hd, m, hm, rfl⟩, rfl⟩
    exact ⟨c, hd, (hemits c hd).mpr ⟨m, hm, rfl⟩⟩

theorem workCovers_iff_partition (hw : xmWblistCreate h args = some wblist)
    (hs : senders < 2 ^ 8) :
    WorkCovers st wblist aes senders maxTargets ↔
      ∃ vs : Nat → List Nat,
        (∀ t < senders, SenderMeets (xmWblistCountAllowed wblist) aes senders t (vs t)) ∧
        Partition wblist senders fun t => addrsOf wblist (vs t) := by
  simp only [WorkCovers, workEmits_iff]
  constructor
  · rintro ⟨_, ⟨f, rfl, hf⟩, hcov⟩
    have hmeet : ∀ t < senders, ∃ ys,
        SenderMeets (xmWblistCountAllowed wblist) aes senders t ys ∧ f t = addrsOf wblist ys :=
      fun t ht => (sender_emits_iff hw hs ht).mp (hf t ht)
    choose! vs hvs using hmeet
    refine ⟨vs, fun t ht => (hvs t ht).1, ?_⟩
    exact (partition_iff_flatten.mpr hcov).congr fun t ht => (hvs t ht).2
  · rintro ⟨vs, hvs, hp⟩
    refine ⟨_, ⟨fun t => addrsOf wblist (vs t), rfl, fun t ht => ?_⟩, partition_iff_flatten.mp hp⟩
    exact (sender_emits_iff hw hs ht).mpr ⟨vs t, hvs t ht, rfl⟩

theorem SenderMeets.visits {vs : Nat → List Nat} {count : Nat}
    (hvs : ∀ t < senders, SenderMeets count aes senders t (vs t)) : Visits count senders vs where
  nodup t ht := by
    obtain ⟨c, _, m, hm, he⟩ := hvs t ht
    rw [he]
    exact (FirstHit.walk_nodup hm).filter _
  valid t ht y hy := by
    obtain ⟨c, _, m, _, he⟩ := hvs t ht
    rw [he] at hy
    exact of_decide_eq_true (List.mem_filter.mp hy).2

/-! ### One sender -/

/-- For a single sender the subshard after the last one is the whole cycle again. -/
theorem shardParams_single (c : XmCycle) : shardParams c 1 1 = shardParams c 1 0 := by
  have hexp : exponentAt c 1 1 = exponentAt c 1 0 := by
    simp [exponentAt]
  rw [shardParams, shardParams, hexp]

/-- A single sender covers what a single run of xiterate prints. -/
theorem workCovers_single_iff (hw : xmWblistCreate h args = some wblist) :
    WorkCovers st wblist aes 1 maxTargets ↔ XitPartition st wblist aes 1 := by
  have hone : 1 < 2 ^ 8 := by decide
  simp only [workCovers_iff_partition hw hone, XitPartition, xitPrints_iff hw]
  constructor
  · rintro ⟨vs, hvs, hp⟩
    refine ⟨_, fun i hi => ?_, hp⟩
    obtain rfl : i = 0 := by omega
    obtain ⟨c, ⟨aes', hd⟩, m, hm, he⟩ := hvs 0 hi
    rw [Nat.mul_zero, Nat.add_zero] at hd
    rw [Nat.zero_add, shardParams_single] at hm he
    exact ⟨c, aes', hd, m, hm, by rw [he]⟩
  · rintro ⟨outs, houts, hp⟩
    obtain ⟨c, aes', hd, m, hm, he⟩ := houts 0 Nat.one_pos
    refine ⟨fun _ => (shardParams c 1 0).visits (xmWblistCountAllowed wblist) m, fun i hi => ?_,
      hp.congr fun i hi => ?_⟩
    · obtain rfl : i = 0 := by omega
      refine ⟨c, ⟨aes', hd⟩, m, ?_, ?_⟩
      · rwa [Nat.zero_add, shardParams_single]
      · rw [Nat.zero_add, shardParams_single]
    · obtain rfl : i = 0 := by omega
      exact he

/-! ### One cycle for all senders -/

theorem Partition.rotate {n : Nat} {outs : Nat → List Nat} (hp : Partition wblist n outs) :
    Partition wblist n fun t => outs ((t + 1) % n) := by
  have hlt : ∀ t < n, (t + 1) % n < n := fun t ht => Nat.mod_lt _ (by omega)
  refine ⟨fun t ht => hp.nodup _ (hlt t ht), fun t ht u hu htu => ?_, fun ip hip => ?_⟩
  · refine hp.disjoint _ (hlt t ht) _ (hlt u hu) fun heq => htu ?_
    rw [Nat.add_comm t, Nat.add_comm u] at heq
    exact add_mod_inj ht hu heq
  · rw [← hp.union ip hip]
    constructor
    · rintro ⟨t, ht, hm⟩
      exact ⟨_, hlt t ht, hm⟩
    · rintro ⟨i, hi, hm⟩
      refine ⟨(i + (n - 1)) % n, Nat.mod_lt _ (by omega), ?_⟩
      rwa [Nat.mod_add_mod, show i + (n - 1) + 1 = i + n by omega, Nat.add_mod_right,
        Nat.mod_eq_of_lt hi]

/-- Where the number of senders divides the order, the subshard after the last one is the first. -/
theorem shardParams_of_dvd {c : XmCycle} {n t : Nat} (hd : n ∣ c.order) (ht : t < n) :
    shardParams c n (t + 1) = shardParams c n ((t + 1) % n) := by
  rcases Nat.lt_or_ge (t + 1) n with hlt | hge
  · rw [Nat.mod_eq_of_lt hlt]
  · obtain rfl : n = t + 1 := by omega
    have hexp : exponentAt c (t + 1) (t + 1) = exponentAt c (t + 1) 0 := by
      rw [exponentAt, exponentAt, Nat.div_mul_cancel hd, Nat.add_mod_left, Nat.mul_zero, Nat.zero_add]
    rw [Nat.mod_self, shardParams, shardParams, hexp, Nat.add_mod_left, Nat.zero_add]

/-- Senders that all draw the same cycle cover the list if its ranges do. -/
theorem workCovers_of_common (hw : xmWblistCreate h args = some wblist) (h0 : 0 < senders)
    (hs : senders < 2 ^ 8) {c : XmCycle}
    (hd : ∀ t < senders, SenderDraws (xmWblistCountAllowed wblist) aes t c) (hdvd : senders ∣ c.order)
    (he : c.Even senders) (hset : c.Settles wblist senders) :
    WorkCovers st wblist aes senders maxTargets := by
  obtain ⟨_, hdraw⟩ := hd 0 h0
  have hlt := hdraw.lt_prime
  rw [workCovers_iff_partition hw hs]
  obtain ⟨rfl, _⟩ := xmWblistCreate_eq_some.mp hw
  rw [builtList_count_eq] at hlt hd ⊢
  refine ⟨fun t => (shardParams c senders ((t + 1) % senders)).visits (numbering h args).length
    (c.rangeLength senders ((t + 1) % senders)), fun t ht => ?_, ?_⟩
  · refine ⟨c, hd t ht, c.rangeLength senders ((t + 1) % senders), ?_, ?_⟩
    · rw [shardParams_of_dvd hdvd ht]
      have hi : (t + 1) % senders < senders := Nat.mod_lt _ h0
      exact closes_range he.isGenerator he.fits he.le_order hi (he.last_lt _ hi)
    · rw [shardParams_of_dvd hdvd ht]
  · exact ((he.partition_iff h0 hlt).mpr hset).rotate

/-! ### A cycle for each sender -/

/-- On a cycle through all residues the walk meets the powers of its range, if it closes. -/
theorem senderMeets_iff {count t : Nat} {c : XmCycle} {ys : List Nat} (hd : SenderDraws count aes t c)
    (hg : IsGenerator c.generator c.prime) (hf : c.Fits) :
    SenderMeets count aes senders t ys ↔
      c.start senders ((t + 1 + 1) % senders) < 2 ^ 32 ∧ ys = c.validPowers count senders (t + 1) := by
  have hvisits : (shardParams c senders (t + 1)).visits count (c.walkLength senders (t + 1)) =
      c.validPowers count senders (t + 1) := by
    rw [ShardParams.visits, walk_eq_powers hg hf, XmCycle.validPowers]
  constructor
  · rintro ⟨c', ⟨_, hd'⟩, m, hm, rfl⟩
    obtain ⟨_, hd⟩ := hd
    obtain ⟨rfl, _⟩ := hd.unique hd'
    have hlast := hm.hit.1
    rw [hm.hit.2, shardParams_last] at hlast
    refine ⟨hlast, ?_⟩
    rw [hm.unique (closes_of_fits hg (rangeFits_of_fits hf) hlast), hvisits]
  · rintro ⟨hlast, rfl⟩
    exact ⟨c, hd, _, closes_of_fits hg (rangeFits_of_fits hf) hlast, hvisits.symm⟩

/-- Senders whose cycles go through all residues cover the list exactly when the ranges that they take do. -/
theorem workCovers_iff_settle (hw : xmWblistCreate h args = some wblist) (hs : senders < 2 ^ 8)
    {cs : Nat → XmCycle} (hd : ∀ t < senders, SenderDraws (xmWblistCountAllowed wblist) aes t (cs t))
    (hg : ∀ t < senders, IsGenerator (cs t).generator (cs t).prime ∧ (cs t).Fits) :
    WorkCovers st wblist aes senders maxTargets ↔ SendersSettle wblist cs senders := by
  have hmeets : ∀ t < senders, ∀ ys,
      SenderMeets (xmWblistCountAllowed wblist) aes senders t ys ↔
        (cs t).start senders ((t + 1 + 1) % senders) < 2 ^ 32 ∧
          ys = (cs t).validPowers (xmWblistCountAllowed wblist) senders (t + 1) :=
    fun t ht _ => senderMeets_iff (hd t ht) (hg t ht).1 (hg t ht).2
  have hcovers : ∀ vs : Nat → List Nat,
      (∀ t < senders, SenderMeets (xmWblistCountAllowed wblist) aes senders t (vs t)) →
      (Partition wblist senders (fun t => addrsOf wblist (vs t)) ↔
        CoversPlainly wblist (xmWblistCountAllowed wblist) senders vs ∨
          ∃ k, CoversByStray wblist (xmWblistCountAllowed wblist) senders vs k) := by
    intro vs hvs
    have hvisits := SenderMeets.visits hvs
    obtain ⟨rfl, _⟩ := xmWblistCreate_eq_some.mp hw
    rw [builtList_count_eq] at hvisits ⊢
    exact partition_iff hvisits
  rw [workCovers_iff_partition hw hs, SendersSettle]
  constructor
  · rintro ⟨vs, hvs, hp⟩
    refine ⟨fun t ht => ((hmeets t ht _).mp (hvs t ht)).1, ?_⟩
    have hpowers : ∀ t < senders, SenderMeets (xmWblistCountAllowed wblist) aes senders t
        ((cs t).validPowers (xmWblistCountAllowed wblist) senders (t + 1)) := fun t ht => by
      rw [← ((hmeets t ht _).mp (hvs t ht)).2]
      exact hvs t ht
    refine (hcovers _ hpowers).mp (hp.congr fun t ht => ?_)
    rw [((hmeets t ht _).mp (hvs t ht)).2]
  · rintro ⟨hlast, hc⟩
    have hpowers := fun t ht => (hmeets t ht _).mpr ⟨hlast t ht, rfl⟩
    exact ⟨_, hpowers, (hcovers _ hpowers).mpr hc⟩

/-- Senders that cover the list have each drawn a cycle. -/
theorem WorkCovers.exists_cycles (hcovers : WorkCovers st wblist aes senders maxTargets)
    (hw : xmWblistCreate h args = some wblist) (hs : senders < 2 ^ 8) :
    ∃ cs : Nat → XmCycle, ∀ t < senders, SenderDraws (xmWblistCountAllowed wblist) aes t (cs t) := by
  obtain ⟨vs, hvs, -⟩ := (workCovers_iff_partition hw hs).mp hcovers
  have hdraws : ∀ t < senders, ∃ c, SenderDraws (xmWblistCountAllowed wblist) aes t c := by
    intro t ht
    obtain ⟨c, hd, -⟩ := hvs t ht
    exact ⟨c, hd⟩
  have : Nonempty XmCycle := ⟨leastCycle⟩
  choose! cs hcs using hdraws
  exact ⟨cs, hcs⟩

/-- A single sender covers the list exactly when its cycle is even and settles it. Several senders cover it when
they all draw one such cycle and their number divides its order. Where all cycles that they draw in the largest
group go through all residues, they cover it exactly when each draws one and the ranges that they take settle it. -/
theorem workCovers_iff (hw : xmWblistCreate h args = some wblist) (h0 : 0 < senders)
    (hs : senders < 2 ^ 8) (st : Nat → ShardState) (aes : XmAesrand) (maxTargets : Nat) :
    (WorkCovers st wblist aes 1 maxTargets ↔
      ∃ c aes', Draws (xmWblistCountAllowed wblist) aes c aes' ∧ c.Even 1 ∧ c.Settles wblist 1) ∧
    (∀ c, (∀ t < senders, SenderDraws (xmWblistCountAllowed wblist) aes t c) → senders ∣ c.order →
      c.Even senders → c.Settles wblist senders → WorkCovers st wblist aes senders maxTargets) ∧
    ((∀ t < senders, ∀ c, SenderDraws (xmWblistCountAllowed wblist) aes t c → c.prime = prime32 →
        IsGenerator c.generator c.prime ∧ c.Fits) →
      (WorkCovers st wblist aes senders maxTargets ↔
        ∃ cs : Nat → XmCycle, (∀ t < senders, SenderDraws (xmWblistCountAllowed wblist) aes t (cs t)) ∧
          SendersSettle wblist cs senders)) := by
  refine ⟨?_, fun c hd hdvd he hset => workCovers_of_common hw h0 hs hd hdvd he hset, fun hlargest => ?_⟩
  · rw [workCovers_single_iff hw]
    constructor
    · exact XitPartition.exists_cycle hw Nat.one_pos
    · rintro ⟨c, aes', hd, he, hset⟩
      exact XitPartition.of_cycle hw Nat.one_pos hd he hset
  · have hgood : ∀ cs : Nat → XmCycle, (∀ t < senders, SenderDraws (xmWblistCountAllowed wblist) aes t (cs t)) →
        ∀ t < senders, IsGenerator (cs t).generator (cs t).prime ∧ (cs t).Fits := by
      intro cs hd t ht
      obtain ⟨_, hdraw⟩ := hd t ht
      rcases groups_prime_eq_or_lt (cs t).group with hp | hp
      · exact hlargest t ht _ (hd t ht) hp
      · have hne : (cs t).prime ≠ prime32 := (hp.trans (by decide)).ne
        exact ⟨hdraw.drawn.cases.resolve_right fun h => hne h.1, XmCycle.fits_of_prime_lt hp⟩
    constructor
    · intro hcovers
      obtain ⟨cs, hd⟩ := hcovers.exists_cycles hw hs
      exact ⟨cs, hd, (workCovers_iff_settle hw hs hd (hgood cs hd)).mp hcovers⟩
    · rintro ⟨cs, hd, hset⟩
      exact (workCovers_iff_settle hw hs hd (hgood cs hd)).mpr hset

end

/-! ## Two addresses -/

theorem pairArgs_indexed {ip : Nat} (hip : ip < 2 ^ 32)
    (ha : xmWblistIsAllowed (builtList quadHost pairArgs) ip = true) :
    HasIndex (builtList quadHost pairArgs) ip := by
  rw [hasIndex_iff, pairArgs_numbering]
  obtain ⟨a, hlt, rfl⟩ : ∃ a < 2 ^ 32, ntohl a = ip := ⟨ntohl ip, ntohl_lt _, ntohl_ntohl hip⟩
  rcases pairArgs_admits hlt ((builtList_isAllowed hlt).mp ha) with rfl | rfl
  · exact ⟨1, by decide, addrAt_eq (by rw [pairArgs_numbering]; rfl)⟩
  · exact ⟨2, by decide, addrAt_eq (by rw [pairArgs_numbering]; rfl)⟩

theorem pairArgs_draws (o : Fin 257) (t : Nat) :
    SenderDraws (xmWblistCountAllowed (builtList quadHost pairArgs)) (wordsOf fun _ => o) t
      (leastCycleFrom o) := by
  obtain ⟨g, hg, hc⟩ := draws_wordsOf (fun _ => o) t
  rw [pairArgs_count]
  refine ⟨{ wordsOf (fun _ => o) with pos := 2 * t + 2 }, g, hg, ?_⟩
  simpa [wordsOf] using hc

theorem leastCycleFrom_prime_lt (o : Fin 257) : (leastCycleFrom o).prime < 2 ^ 32 :=
  show leastCycle.prime < 2 ^ 32 by decide

theorem leastCycleFrom_even (o : Fin 257) {n : Nat} (hn : n ≤ 256) : (leastCycleFrom o).Even n where
  isGenerator := leastCycle_isGenerator
  fits := XmCycle.fits_of_prime_lt (leastCycleFrom_prime_lt o)
  le_order := hn
  last_lt _ _ := ((leastCycleFrom o).start_lt n _).trans (leastCycleFrom_prime_lt o)

/-- From the offset 10 on the index plus one 2 is in the first half of the cycle and 1 in the second. -/
theorem leastCycleFrom_settles : (leastCycleFrom 10).Settles (builtList quadHost pairArgs) 2 := by
  refine Or.inl ⟨fun i hi hb => ?_, fun ip => pairArgs_indexed⟩
  rw [pairArgs_count] at hb
  obtain rfl | rfl : i = 0 ∨ i = 1 := by omega
  · exact hb 6 (by decide) (by decide +kernel)
  · exact hb 118 (by decide) (by decide +kernel)

/-- Two senders that draw the same words share the two addresses. -/
theorem workCovers_iff_pair :
    WorkCovers (fun _ => zeroState) (builtList quadHost pairArgs) (wordsOf fun _ => 10) 2 0xFFFFFFFF :=
  (workCovers_iff pairArgs_create (by decide) (by decide) _ _ _).2.1 (leastCycleFrom 10)
    (fun t _ => pairArgs_draws 10 t) (by decide) (leastCycleFrom_even 10 (by decide)) leastCycleFrom_settles

/-! ## One address -/

/-- The senders of the list of one address, where all walks start at its index. -/
theorem hostArgs_createShards {offsets : Nat → Fin 257} {senders : Nat} (hs : senders < 2 ^ 8)
    (hfirst : ∀ t < senders, (shardParams (leastCycleFrom (offsets t)) senders (t + 1)).first = 1)
    (maxTargets : Nat) :
    workCreateShards 0 (fun _ => zeroState) (workContext (builtList quadHost hostArgs) senders maxTargets)
      senders 0 (wordsOf offsets) = some ((List.range senders).map fun t =>
        newShard zeroState senders (t + 1) maxTargets 1 (leastCycleFrom (offsets t))
          (builtList quadHost hostArgs)) := by
  refine workCreateShards_eq_some.mpr ⟨_, rfl, fun t ht => ⟨leastCycleFrom (offsets t), ?_, ?_⟩⟩
  · refine ⟨{ wordsOf offsets with pos := 2 * t + 2 }, ?_⟩
    have hd := draws_wordsOf offsets t
    rw [← hostArgs_count] at hd
    simpa [workContext, wordsOf] using hd
  · have hidx : (0 + t + 1) % 2 ^ 8 = t + 1 := by
      rw [Nat.zero_add]
      exact Nat.mod_eq_of_lt (by omega)
    simp only [SenderShard, workContext, hostArgs_count, hidx]
    rw [xmShardCreate_of_valid]
    · simp only [subIdx, Nat.one_mul, Nat.zero_mul, Nat.zero_add]
      rfl
    · simp only [subIdx, Nat.one_mul, Nat.zero_mul, Nat.zero_add, currentIndex, newShard_current]
      rw [hfirst t ht]
      decide

/-- Two senders whose cycles start their walks at the same index both emit its address. -/
theorem workCovers_two_senders :
    ¬ WorkCovers (fun _ => zeroState) (builtList quadHost hostArgs)
      (wordsOf fun t => if t = 0 then 128 else 0) 2 0xFFFFFFFF := by
  rw [workCovers_iff_partition hostArgs_create (by decide), hostArgs_count]
  rintro ⟨vs, hvs, hp⟩
  have hone : ∀ t < 2, 1 ∈ vs t := by
    intro t ht
    obtain ⟨c, ⟨_, hd⟩, m, hm, he⟩ := hvs t ht
    rw [show (wordsOf fun t => if t = 0 then 128 else 0).pos + 2 * t = 2 * t from Nat.zero_add _]
      at hd
    obtain ⟨rfl, _⟩ := hd.unique (draws_wordsOf _ t)
    rw [he]
    refine List.mem_filter.mpr ⟨mem_walk.mpr ⟨0, hm.pos, ?_⟩, by decide⟩
    obtain rfl | rfl : t = 0 ∨ t = 1 := by omega
    · decide +kernel
    · decide +kernel
  exact hp.disjoint 0 (by omega) 1 (by omega) (by omega) _ (mem_addrsOf_of_mem (hone 0 (by omega)))
    (mem_addrsOf_of_mem (hone 1 (by omega)))

end Xmap.Target
