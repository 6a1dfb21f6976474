import Xmap.Target.Lemmas.Drawn
import Xmap.Target.ShardTheorems

/-!
# Theorems on whole scans

When the runs of a sharded scan, and the sender threads of one instance, cover the allowed addresses
exactly once.
-/

namespace Xmap.Target

open Xmap.Lib

/-! ## Sharded runs of xiterate -/

/-- The runs with shard numbers below `n` print a partition of the allowed addresses. -/
def XitPartition (st : Nat → ShardState) (wblist : XmWblist) (aes : XmAesrand) (n : Nat) : Prop :=
  ∃ outs : Nat → List Nat,
    (∀ i < n, XitPrints (st i) { shardNum := i, totalShards := n, aes := aes, wblist := wblist }
      (outs i)) ∧
    Partition wblist n outs

/-- No residue of range `i` of `n` is a valid element. -/
def XmCycle.Barren (c : XmCycle) (maxIndex n i : Nat) : Prop :=
  ∀ j < c.rangeLength n i, ¬ IsValid maxIndex (c.generator ^ (exponentAt c n i + j) % c.prime)

/-- The cycle walks through all residues, in ranges that all end below a word. -/
structure XmCycle.Even (c : XmCycle) (n : Nat) : Prop where
  isGenerator : IsGenerator c.generator c.prime
  fits : c.Fits
  le_order : n ≤ c.order
  last_lt : ∀ i < n, c.start n ((i + 1) % n) < 2 ^ 32

/-- Every range has a valid element and every allowed address an index; or one range has none, and its
stray address is the only allowed one without an index. -/
def XmCycle.Settles (c : XmCycle) (wblist : XmWblist) (n : Nat) : Prop :=
  ((∀ i < n, ¬ c.Barren (xmWblistCountAllowed wblist) n i) ∧
    ∀ ip < 2 ^ 32, xmWblistIsAllowed wblist ip = true → HasIndex wblist ip) ∨
  ∃ k < n, c.Barren (xmWblistCountAllowed wblist) n k ∧
    (∀ i < n, i ≠ k → ¬ c.Barren (xmWblistCountAllowed wblist) n i) ∧
    ∀ ip < 2 ^ 32, (xmWblistIsAllowed wblist ip = true ∧ ¬ HasIndex wblist ip) ↔ ip = stray wblist

section
variable {h : Host} {args : WblistArgs} {c : XmCycle} {n : Nat}

theorem visits_range_eq_nil (hf : c.Fits) (L i : Nat) :
    (shardParams c n i).visits L (c.rangeLength n i) = [] ↔ c.Barren L n i := by
  have hstep : ∀ j, (shardParams c n i).step^[j] (shardParams c n i).first =
      c.generator ^ (exponentAt c n i + j) % c.prime := by
    intro j
    rw [shardParams_step, shardParams_first, XmCycle.iterate_step_eq hf (c.start_lt n i),
      XmCycle.start, iterate_mulMod_pow c.isPrime.pos]
  rw [ShardParams.visits, List.filter_eq_nil_iff, XmCycle.Barren]
  simp only [mem_walk, forall_exists_index, and_imp, forall_apply_eq_imp_iff₂, decide_eq_true_eq,
    hstep]

/-- Every valid element is met in exactly one range of an even cycle. -/
theorem XmCycle.Even.onOne (he : c.Even n) (hn : 0 < n) {L y : Nat} (hL : L < c.prime)
    (hy : IsValid L y) :
    OnOne n (fun i => (shardParams c n i).visits L (c.rangeLength n i)) y := by
  have hclose : ∀ i < n, (shardParams c n i).Closes (c.rangeLength n i) := fun i hi =>
    closes_range he.isGenerator he.fits he.le_order hi (he.last_lt i hi)
  obtain ⟨_, hflat⟩ := ranges_chain hclose
  rw [sum_rangeLength hn, c.order_eq] at hflat
  have hmem : ∀ i, y ∈ (shardParams c n i).visits L (c.rangeLength n i) ↔
      y ∈ walk c.step (c.start n i) (c.rangeLength n i) := by
    intro i
    rw [ShardParams.visits, List.mem_filter, decide_eq_true_eq, shardParams_step,
      shardParams_first]
    exact and_iff_left hy
  have hnodup : (walk c.step (c.start n 0) (c.prime - 1)).Nodup := by
    rw [XmCycle.walk_step_eq he.fits (c.start_lt n 0)]
    exact (he.isGenerator.firstHit IsGenerator.order_pos le_rfl
      (b := exponentAt c n 0) (by rw [Nat.add_mod_right])).walk_nodup
  have hin : y ∈ walk c.step (c.start n 0) (c.prime - 1) := by
    rw [XmCycle.walk_step_eq he.fits (c.start_lt n 0), XmCycle.start,
      he.isGenerator.mem_walk_iff]
    exact ⟨hy.1, lt_of_le_of_lt hy.2 hL⟩
  rw [← hflat] at hnodup hin
  obtain ⟨i, hi, hyi⟩ := List.mem_flatMap.mp hin
  refine ⟨i, List.mem_range.mp hi, (hmem i).mpr hyi, fun j hj hyj => ?_⟩
  by_contra hji
  have hdis := (List.nodup_flatMap.mp hnodup).2
  have : Std.Symm (Function.onFun List.Disjoint fun i =>
      walk c.step (c.start n i) (c.rangeLength n i)) := ⟨fun _ _ hd => hd.symm⟩
  exact hdis.forall (List.mem_range.mpr hj) hi hji ((hmem j).mp hyj) hyi

end

/-! ## Sharded runs, whole -/

section
variable {h : Host} {args : WblistArgs} {wblist : XmWblist} {aes : XmAesrand} {n : Nat}

theorem xitCreateShard_eq_some {fuel : Nat} {st : ShardState} {conf : XitConf} {s : XmShard} :
    xitCreateShard fuel st conf = some s ↔
      ∃ c aes', Draws (xmWblistCountAllowed conf.wblist) conf.aes c aes' ∧
        xmShardCreate fuel st conf.shardNum conf.totalShards 0 1
          (xmWblistCountAllowed conf.wblist % 2 ^ 32) (xmWblistCountAllowed conf.wblist) c
          conf.wblist = some s := by
  unfold xitCreateShard Draws
  generalize xmWblistCountAllowed conf.wblist = count
  dsimp only
  constructor
  · intro hs
    cases hg : xmGetCyclicGroup count with
    | none => simp [hg] at hs
    | some g =>
      cases hc : xmMakeCycle g conf.aes with
      | none => simp [hg, hc] at hs
      | some r =>
        simp only [hg, hc] at hs
        exact ⟨r.1, r.2, ⟨g, rfl, hc⟩, hs⟩
  · rintro ⟨c, aes', ⟨g, hg, hc⟩, hs⟩
    simp only [hg, hc]
    exact hs

/-- A run prints what the walk of its range meets, and it does so exactly when that walk closes. -/
theorem xitPrints_iff (hw : xmWblistCreate h args = some wblist) {st : ShardState} {i : Nat}
    {out : List Nat} :
    XitPrints st { shardNum := i, totalShards := n, aes := aes, wblist := wblist } out ↔
      ∃ c aes', Draws (xmWblistCountAllowed wblist) aes c aes' ∧
        ∃ m, (shardParams c n i).Closes m ∧
          out = addrsOf wblist ((shardParams c n i).visits (xmWblistCountAllowed wblist) m) := by
  obtain ⟨rfl, hne⟩ := xmWblistCreate_eq_some.mp hw
  have hemits : ∀ c aes', Draws (xmWblistCountAllowed (builtList h args)) aes c aes' →
      ((∃ fuel s, xmShardCreate fuel st i n 0 1
          (xmWblistCountAllowed (builtList h args) % 2 ^ 32)
          (xmWblistCountAllowed (builtList h args)) c (builtList h args) = some s ∧
          ∃ fuel, emit fuel s = some out) ↔
        ∃ m, (shardParams c n i).Closes m ∧ out = addrsOf (builtList h args)
          ((shardParams c n i).visits (xmWblistCountAllowed (builtList h args)) m)) := by
    intro c aes' hd
    rw [xmShardCreate_emits, Nat.mul_one, subIdx, Nat.mul_one, Nat.add_zero, builtList_count_eq]
    exact hd.drawn.emits hne
  simp only [XitPrints, xitCreateShard_eq_some]
  constructor
  · rintro ⟨fuel, s, ⟨c, aes', hd, hs⟩, hout⟩
    exact ⟨c, aes', hd, (hemits c aes' hd).mp ⟨fuel, s, hs, hout⟩⟩
  · rintro ⟨c, aes', hd, hem⟩
    obtain ⟨fuel, s, hs, hout⟩ := (hemits c aes' hd).mpr hem
    exact ⟨fuel, s, ⟨c, aes', hd, hs⟩, hout⟩

section
variable {c : XmCycle} {ms : Nat → Nat}
  (hd : c.Drawn) (hL : c.prime = prime32 → 268435459 ≤ (numbering h args).length)
  (hclose : ∀ i < n, (shardParams c n i).Closes (ms i))
  (hp : Partition (builtList h args) n fun i => addrsOf (builtList h args)
    ((shardParams c n i).visits (numbering h args).length (ms i)))
include hd hL hclose hp

/-- A cycle whose ranges miss two valid elements gives no partition: at most one of the two addresses
is the stray one. -/
theorem Partition.isGenerator_and_fits : IsGenerator c.generator c.prime ∧ c.Fits := by
  by_contra hbad
  obtain ⟨hreturn, hflat⟩ := ranges_chain hclose
  obtain ⟨hprime, y, z, hyz, hy, hz, hym, hzm⟩ := missesTwo_of_bad hd.pos hd.cases hbad hreturn
  have hlen := hL hprime
  rw [← hflat] at hym hzm
  have hmiss : ∀ x, x ∉ (List.range n).flatMap (fun i => walk c.step (c.start n i) (ms i)) →
      ¬ OnOne n (fun i => (shardParams c n i).visits (numbering h args).length (ms i)) x := by
    rintro x hx ⟨i, hi, hxi, _⟩
    exact hx (List.mem_flatMap.mpr ⟨i, List.mem_range.mpr hi, (List.mem_filter.mp hxi).1⟩)
  have hyv : IsValid (numbering h args).length y := ⟨hy.1, by omega⟩
  have hzv : IsValid (numbering h args).length z := ⟨hz.1, by omega⟩
  rcases (partition_iff (visits_of_closes hclose)).mp hp with hc | ⟨k, hc⟩
  · exact hmiss y hym (hc.onOne y hyv)
  · have hys : elemAddr (builtList h args) y = stray (builtList h args) := by
      by_contra hs
      exact hmiss y hym (hc.onOne y hyv hs)
    have hzs : elemAddr (builtList h args) z = stray (builtList h args) := by
      by_contra hs
      exact hmiss z hzm (hc.onOne z hzv hs)
    exact hyz (elemAddr_inj hyv hzv (hys.trans hzs.symm))

omit hd hL in
/-- More shards than elements all walk the whole cycle. -/
theorem Partition.le_order : n ≤ c.order := by
  by_contra hlt
  have hone : 1 < n := by
    have := c.isPrime.two_le
    have : c.order = c.prime - 1 := c.order_eq
    omega
  have hexp : ∀ i, exponentAt c n i = c.offset % c.order := fun i => by
    rw [exponentAt, Nat.div_eq_of_lt (by omega), Nat.zero_mul, Nat.zero_add]
  have hsame : shardParams c n 1 = shardParams c n 0 := by
    simp only [shardParams, hexp]
  have hms : ms 1 = ms 0 := by
    have h1 := hclose 1 hone
    rw [hsame] at h1
    exact h1.unique (hclose 0 (by omega))
  have hdis := hp.disjoint 0 (by omega) 1 hone (by omega)
  simp only [hsame, hms] at hdis
  cases hv : (shardParams c n 0).visits (numbering h args).length (ms 0) with
  | nil => exact hdis _ (mem_addrsOf.mpr (Or.inl ⟨hv, rfl⟩)) (mem_addrsOf.mpr (Or.inl ⟨hv, rfl⟩))
  | cons y ys =>
    have hy : y ∈ (shardParams c n 0).visits (numbering h args).length (ms 0) := by
      rw [hv]
      exact List.mem_cons_self
    exact hdis _ (mem_addrsOf_of_mem hy) (mem_addrsOf_of_mem hy)

theorem Partition.even : c.Even n := by
  obtain ⟨hg, hf⟩ := Partition.isGenerator_and_fits hd hL hclose hp
  refine ⟨hg, hf, Partition.le_order hclose hp, fun i hi => ?_⟩
  have hit := (hclose i hi).hit
  rw [← shardParams_last, ← hit.2]
  exact hit.1

end

/-- The ranges of an even cycle cover a list exactly when they settle it. -/
theorem XmCycle.Even.partition_iff {c : XmCycle} (he : c.Even n) (hn : 0 < n)
    (hlt : (numbering h args).length < c.prime) :
    Partition (builtList h args) n (fun i => addrsOf (builtList h args)
        ((shardParams c n i).visits (numbering h args).length (c.rangeLength n i))) ↔
      c.Settles (builtList h args) n := by
  have hclose : ∀ i < n, (shardParams c n i).Closes (c.rangeLength n i) := fun i hi =>
    closes_range he.isGenerator he.fits he.le_order hi (he.last_lt i hi)
  have hbarren := visits_range_eq_nil he.fits (n := n) (numbering h args).length
  have hone : ∀ y, IsValid (numbering h args).length y → _ := fun y hy => he.onOne hn hlt hy
  rw [Xmap.Target.partition_iff (visits_of_closes hclose), XmCycle.Settles, builtList_count_eq]
  constructor
  · rintro (hc | ⟨k, hc⟩)
    · exact Or.inl ⟨fun i hi hb => hc.nonempty i hi ((hbarren i).mpr hb), hc.indexed⟩
    · refine Or.inr ⟨k, hc.lt, (hbarren k).mp hc.empty,
        fun i hi hik hb => hc.nonempty i hi hik ((hbarren i).mpr hb), fun ip hip => ⟨?_, ?_⟩⟩
      · rintro ⟨ha, hno⟩
        by_contra hs
        exact hno (hc.indexed ip hip ha hs)
      · rintro rfl
        refine ⟨hc.allowed, fun hi => ?_⟩
        obtain ⟨y, hy, hs⟩ := hasIndex_iff.mp hi
        obtain ⟨i, hi, hyi, _⟩ := hone y hy
        exact hc.missed y hy hs i hi hyi
  · rintro (⟨hne, hidx⟩ | ⟨k, hk, hke, hne, hstray⟩)
    · exact Or.inl ⟨fun i hi hb => hne i hi ((hbarren i).mp hb), hone, hidx⟩
    · obtain ⟨hsa, hsn⟩ := (hstray _ (stray_lt _)).mpr rfl
      refine Or.inr ⟨k, hk, (hbarren k).mpr hke, fun i hi hik hb => hne i hi hik ((hbarren i).mp hb),
        hsa, fun y hy _ => hone y hy, fun y hy hs => ?_, fun ip hip ha hs => ?_⟩
      · exact absurd (hasIndex_iff.mpr ⟨y, hy, hs⟩) hsn
      · by_contra hno
        exact hs ((hstray ip hip).mp ⟨ha, hno⟩)

theorem Partition.congr {wblist : XmWblist} {outs outs' : Nat → List Nat}
    (hp : Partition wblist n outs) (he : ∀ i < n, outs i = outs' i) : Partition wblist n outs' where
  nodup i hi := he i hi ▸ hp.nodup i hi
  disjoint i hi j hj := he i hi ▸ he j hj ▸ hp.disjoint i hi j hj
  union ip hip := by
    rw [← hp.union ip hip]
    exact exists_congr fun i => and_congr_right fun hi => by rw [he i hi]

theorem XitPartition.exists_cycle (hw : xmWblistCreate h args = some wblist) (hn : 0 < n)
    {st : Nat → ShardState} (hp : XitPartition st wblist aes n) :
    ∃ c aes', Draws (xmWblistCountAllowed wblist) aes c aes' ∧ c.Even n ∧ c.Settles wblist n := by
  obtain ⟨outs, houts, hp⟩ := hp
  simp only [xitPrints_iff hw] at houts
  obtain ⟨rfl, hne⟩ := xmWblistCreate_eq_some.mp hw
  obtain ⟨c, aes', hd, _⟩ := houts 0 hn
  have hruns : ∀ i < n, ∃ m, (shardParams c n i).Closes m ∧ outs i = addrsOf (builtList h args)
      ((shardParams c n i).visits (xmWblistCountAllowed (builtList h args)) m) := by
    intro i hi
    obtain ⟨c', _, hd', hm⟩ := houts i hi
    rwa [(hd.unique hd').1]
  choose! ms hms using hruns
  have hclose : ∀ i < n, (shardParams c n i).Closes (ms i) := fun i hi => (hms i hi).1
  have hp' := hp.congr fun i hi => (hms i hi).2
  rw [builtList_count_eq] at hp' hd
  have he : c.Even n := Partition.even hd.drawn hd.le_of_prime32 hclose hp'
  have hlen : ∀ i < n, ms i = c.rangeLength n i := fun i hi => (hclose i hi).unique
    (closes_range he.isGenerator he.fits he.le_order hi (he.last_lt i hi))
  refine ⟨c, aes', builtList_count_eq ▸ hd, he, (he.partition_iff hn hd.lt_prime).mp ?_⟩
  exact hp'.congr fun i hi => by rw [hlen i hi]

theorem XitPartition.of_cycle (hw : xmWblistCreate h args = some wblist) (hn : 0 < n)
    {st : Nat → ShardState} {c : XmCycle} {aes' : XmAesrand}
    (hd : Draws (xmWblistCountAllowed wblist) aes c aes') (he : c.Even n)
    (hs : c.Settles wblist n) : XitPartition st wblist aes n := by
  have hlt := hd.lt_prime
  simp only [XitPartition, xitPrints_iff hw]
  obtain ⟨rfl, hne⟩ := xmWblistCreate_eq_some.mp hw
  rw [builtList_count_eq] at hlt
  refine ⟨fun i => addrsOf (builtList h args) ((shardParams c n i).visits
    (numbering h args).length (c.rangeLength n i)), fun i hi => ?_,
    (he.partition_iff hn hlt).mpr hs⟩
  refine ⟨c, aes', hd, c.rangeLength n i, ?_, by rw [builtList_count_eq]⟩
  exact closes_range he.isGenerator he.fits he.le_order hi (he.last_lt i hi)

/-- Sharded runs print a partition of the allowed addresses exactly when the drawn cycle is even for
their number and its ranges settle the list. -/
theorem xitPartition_iff (hw : xmWblistCreate h args = some wblist) (hn : 0 < n)
    (st : Nat → ShardState) (aes : XmAesrand) :
    XitPartition st wblist aes n ↔
      ∃ c aes', Draws (xmWblistCountAllowed wblist) aes c aes' ∧ c.Even n ∧ c.Settles wblist n := by
  constructor
  · exact XitPartition.exists_cycle hw hn
  · rintro ⟨c, aes', hd, he, hs⟩
    exact XitPartition.of_cycle hw hn hd he hs

end

/-! ## Runs over one address -/

/-- The least cycle from another offset on. -/
def leastCycleFrom (o : Fin 257) : XmCycle :=
  { leastCycle with offset := o.val, offset_lt := o.isLt }

/-- A word 3 draws the generator of the least cycle, the next word its offset. -/
theorem draws_least {aes : XmAesrand} (o : Fin 257) (h0 : aes.stream aes.pos = 3)
    (h1 : (aes.stream (aes.pos + 1)).val = o.val) :
    Draws 1 aes (leastCycleFrom o) { aes with pos := aes.pos + 2 } := by
  have hfirst : firstCandidate leastCycle.group.val (xmAesrandGetword aes).1 = 3 := by
    rw [xmAesrandGetword, h0]
    rfl
  have hcand : findCandidate leastCycle.group.val (8589934591 + 1) 3 = some 3 := rfl
  have hroot : (findPrimroot leastCycle.group.val aes).1 = some 27 := by
    simp only [findPrimroot, hfirst, show (2 : Nat) ^ 33 = 8589934591 + 1 from rfl, hcand]
    rfl
  have hoff : (xmAesrandGetword (findPrimroot leastCycle.group.val aes).2).1 % 2 ^ 32 % 257 = o := by
    have := o.isLt
    show (aes.stream (aes.pos + 1)).val % 2 ^ 32 % 257 = o
    omega
  refine ⟨leastCycle.group, rfl, ?_⟩
  unfold xmMakeCycle
  split
  · rename_i hnone
    rw [hroot] at hnone
    cases hnone
  · rename_i hsome
    obtain rfl := Option.some.inj (hroot.symm.trans hsome)
    simp only [leastCycleFrom, leastCycle, ← hoff]
    rfl

/-- The words alternate between 3 and an offset. -/
def wordsOf (offsets : Nat → Fin 257) : XmAesrand where
  stream k := if k % 2 = 0 then 3 else (offsets (k / 2)).castLE (by omega)
  pos := 0

theorem wordsOf_even (offsets : Nat → Fin 257) (t : Nat) : (wordsOf offsets).stream (2 * t) = 3 :=
  if_pos (by omega)

theorem wordsOf_odd (offsets : Nat → Fin 257) (t : Nat) :
    ((wordsOf offsets).stream (2 * t + 1)).val = (offsets t).val := by
  simp only [wordsOf]
  rw [if_neg (by omega), Fin.val_castLE, show (2 * t + 1) / 2 = t by omega]

theorem draws_wordsOf (offsets : Nat → Fin 257) (t : Nat) :
    Draws 1 { wordsOf offsets with pos := 2 * t } (leastCycleFrom (offsets t))
      { wordsOf offsets with pos := 2 * t + 2 } :=
  draws_least _ (wordsOf_even offsets t) (wordsOf_odd offsets t)

theorem leastCycle_even_one : leastCycle.Even 1 where
  isGenerator := (draws_wordsOf 0 0).drawn.cases.resolve_right fun h => absurd h.1 (by decide)
  fits := XmCycle.fits_of_prime_lt (by decide)
  le_order := by decide
  last_lt i _ := (leastCycle.start_lt 1 _).trans (by decide)

theorem hostArgs_indexed {ip : Nat} (hip : ip < 2 ^ 32)
    (ha : xmWblistIsAllowed (builtList quadHost hostArgs) ip = true) :
    HasIndex (builtList quadHost hostArgs) ip := by
  rw [hasIndex_iff, hostArgs_numbering]
  obtain ⟨a, hlt, rfl⟩ : ∃ a < 2 ^ 32, ntohl a = ip := ⟨ntohl ip, ntohl_lt _, ntohl_ntohl hip⟩
  obtain rfl := hostArgs_admits hlt ((builtList_isAllowed hlt).mp ha)
  refine ⟨1, by decide, ?_⟩
  exact addrAt_eq (by rw [hostArgs_numbering]; rfl)

theorem hostArgs_draws :
    Draws (xmWblistCountAllowed (builtList quadHost hostArgs)) (wordsOf 0) leastCycle
      { wordsOf 0 with pos := 2 } := by
  rw [hostArgs_count]
  exact draws_wordsOf 0 0

theorem leastCycle_settles : leastCycle.Settles (builtList quadHost hostArgs) 1 := by
  refine Or.inl ⟨fun i hi hb => ?_, fun ip => hostArgs_indexed⟩
  obtain rfl : i = 0 := by omega
  rw [hostArgs_count] at hb
  exact hb 0 (by decide) (by decide)

/-- A single run prints the address. -/
theorem xitPartition_iff_single :
    XitPartition (fun _ => zeroState) (builtList quadHost hostArgs) (wordsOf 0) 1 :=
  (xitPartition_iff hostArgs_create Nat.one_pos _ _).mpr
    ⟨leastCycle, _, hostArgs_draws, leastCycle_even_one, leastCycle_settles⟩

/-- Of two runs one has no index, and it prints an address that is not allowed. -/
theorem xitPartition_two_runs :
    ¬ XitPartition (fun _ => zeroState) (builtList quadHost hostArgs) (wordsOf 0) 2 := by
  intro hp
  obtain ⟨c, aes', hd, _, hs⟩ := hp.exists_cycle hostArgs_create (by omega)
  obtain ⟨rfl, _⟩ := hd.unique hostArgs_draws
  rcases hs with ⟨hne, _⟩ | ⟨k, _, _, _, hs⟩
  · refine hne 1 (by omega) ?_
    rw [hostArgs_count, XmCycle.Barren]
    decide +kernel
  · exact hostArgs_stray ((hs _ (stray_lt _)).mpr rfl).1

end Xmap.Target
