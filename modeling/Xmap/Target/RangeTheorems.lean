import Xmap.Lib.CyclicRange
import Xmap.Target.Lemmas.Calls
import Xmap.Target.ShardTheorems

/-!
# Theorems on the ranges of subshards

The exponents of `xm_shard_create` in the words of the code, the partition of the group that they make, and
the subshards that the senders of a scan take.
-/

namespace Xmap.Target

open Xmap.Lib

/-! ## The words of `xm_shard_create` -/

/-- `num_subshards`, a `uint32_t`. -/
def numSubshardsWord (numShards numThreads : Nat) : Nat := numShards * numThreads % 2 ^ 32

/-- `sub_idx`, a `uint32_t`. -/
def subIdxWord (shardIdx threadIdx numThreads : Nat) : Nat := (shardIdx * numThreads + threadIdx) % 2 ^ 32

/-- `exponent_begin`, a `uint64_t`. -/
def exponentBegin (cycle : XmCycle) (shardIdx numShards threadIdx numThreads : Nat) : Nat :=
  (cycle.order / numSubshardsWord numShards numThreads * subIdxWord shardIdx threadIdx numThreads % 2 ^ 64 +
    cycle.offset) % 2 ^ 64 % cycle.order

/-- `exponent_end`, a `uint64_t`. -/
def exponentEnd (cycle : XmCycle) (shardIdx numShards threadIdx numThreads : Nat) : Nat :=
  (cycle.order / numSubshardsWord numShards numThreads *
      ((subIdxWord shardIdx threadIdx numThreads + 1) % 2 ^ 32 % numSubshardsWord numShards numThreads) %
        2 ^ 64 + cycle.offset) % 2 ^ 64 % cycle.order

/-- The exponents of a subshard: the whole cycle when there is only one, else from its begin to its end. -/
def exponentRange (cycle : XmCycle) (shardIdx numShards threadIdx numThreads : Nat) : Set Nat :=
  if numShards * numThreads = 1 then Set.Iio cycle.order
  else cyclicRange cycle.order (exponentBegin cycle shardIdx numShards threadIdx numThreads)
    (exponentEnd cycle shardIdx numShards threadIdx numThreads)

/-- No sum or product leaves its word; `sub_idx` is computed as an `int`. -/
structure NoOverflow (cycle : XmCycle) (shardIdx numShards threadIdx numThreads : Nat) : Prop where
  subshards : numShards * numThreads < 2 ^ 32
  index : shardIdx * numThreads + threadIdx + 1 < 2 ^ 31
  beginSum : cycle.order / (numShards * numThreads) * (shardIdx * numThreads + threadIdx) + cycle.offset < 2 ^ 64
  endSum : cycle.order / (numShards * numThreads) *
    ((shardIdx * numThreads + threadIdx + 1) % (numShards * numThreads)) + cycle.offset < 2 ^ 64

/-- The subshards of all shards and threads cut the exponents into ranges. -/
structure Partitions (cycle : XmCycle) (numShards numThreads : Nat) : Prop where
  noOverflow : ∀ n < numShards, ∀ t < numThreads, NoOverflow cycle n numShards t numThreads
  nonempty : ∀ n < numShards, ∀ t < numThreads, (exponentRange cycle n numShards t numThreads).Nonempty
  disjoint : ∀ n < numShards, ∀ t < numThreads, ∀ n' < numShards, ∀ t' < numThreads, (n, t) ≠ (n', t') →
    ∀ e ∈ exponentRange cycle n numShards t numThreads, e ∉ exponentRange cycle n' numShards t' numThreads
  cover : ∀ e < cycle.order, ∃ n < numShards, ∃ t < numThreads, e ∈ exponentRange cycle n numShards t numThreads

section
variable {c : XmCycle} {N T n t : Nat}

theorem subIdx_lt (hn : n < N) (ht : t < T) : subIdx n t T < N * T := by
  have : (n + 1) * T ≤ N * T := Nat.mul_le_mul_right _ hn
  rw [Nat.succ_mul] at this
  unfold subIdx
  omega

theorem subIdx_inj {n' t' : Nat} (ht : t < T) (ht' : t' < T) (h : subIdx n t T = subIdx n' t' T) :
    (n, t) = (n', t') := by
  have hdiv : ∀ n t, t < T → subIdx n t T / T = n ∧ subIdx n t T % T = t := by
    intro n t ht
    rw [subIdx, Nat.mul_comm, Nat.mul_add_div (by omega), Nat.div_eq_of_lt ht, Nat.mul_add_mod,
      Nat.mod_eq_of_lt ht]
    exact ⟨rfl, rfl⟩
  obtain ⟨hq, hr⟩ := hdiv n t ht
  obtain ⟨hq', hr'⟩ := hdiv n' t' ht'
  rw [h, hq'] at hq
  rw [h, hr'] at hr
  rw [hq, hr]

theorem order_lt (c : XmCycle) : c.order < 2 ^ 33 := by
  have := groups_prime_lt c.group
  have := c.order_eq
  omega

theorem noOverflow_of_lt (hNT : N * T < 2 ^ 31 - 1) (hn : n < N) (ht : t < T) : NoOverflow c n N t T := by
  have hidx : n * T + t < N * T := subIdx_lt hn ht
  have horder := order_lt c
  have hoffset := c.offset_lt
  have hprime := groups_prime_lt c.group
  have hprod : ∀ j < N * T, c.order / (N * T) * j + c.offset < 2 ^ 64 := by
    intro j hj
    have : c.order / (N * T) * j ≤ c.order / (N * T) * (N * T) := Nat.mul_le_mul_left _ hj.le
    have := Nat.div_mul_le_self c.order (N * T)
    omega
  exact ⟨by omega, by omega, hprod _ hidx, hprod _ (Nat.mod_lt _ (by omega))⟩

theorem NoOverflow.begin_eq (h : NoOverflow c n N t T) :
    exponentBegin c n N t T = exponentAt c (N * T) (subIdx n t T) := by
  have hidx := h.index
  have hsum := h.beginSum
  rw [exponentBegin, numSubshardsWord, subIdxWord, Nat.mod_eq_of_lt h.subshards,
    Nat.mod_eq_of_lt (show n * T + t < 2 ^ 32 by omega),
    Nat.mod_eq_of_lt (show c.order / (N * T) * (n * T + t) < 2 ^ 64 by omega), Nat.mod_eq_of_lt hsum]
  rfl

theorem NoOverflow.end_eq (h : NoOverflow c n N t T) :
    exponentEnd c n N t T = exponentAt c (N * T) ((subIdx n t T + 1) % (N * T)) := by
  have hidx := h.index
  have hsum := h.endSum
  rw [exponentEnd, numSubshardsWord, subIdxWord, Nat.mod_eq_of_lt h.subshards,
    Nat.mod_eq_of_lt (show n * T + t < 2 ^ 32 by omega), Nat.mod_eq_of_lt (show n * T + t + 1 < 2 ^ 32 by omega),
    Nat.mod_eq_of_lt (show c.order / (N * T) * ((n * T + t + 1) % (N * T)) < 2 ^ 64 by omega),
    Nat.mod_eq_of_lt hsum]
  rfl

/-- The elements of a shard are the powers with the exponents of the words. -/
theorem NoOverflow.shardParams_eq (h : NoOverflow c n N t T) :
    shardParams c (N * T) (subIdx n t T) =
      { first := c.generator ^ exponentBegin c n N t T % c.prime
        last := c.generator ^ exponentEnd c n N t T % c.prime
        factor := c.generator
        modulus := c.prime } := by
  rw [h.begin_eq, h.end_eq]
  rfl

/-! ## The partition -/

/-- Where subshard `i` of `n` starts without the offset; the order behind the last one. -/
def cut (c : XmCycle) (n i : Nat) : Nat := if i < n then c.order / n * i else c.order

theorem cut_of_lt {i : Nat} (hi : i < n) : cut c n i = c.order / n * i := if_pos hi

theorem cut_cuts (h2 : 2 ≤ n) (hn : n ≤ c.order) : Cuts (cut c n) n c.order where
  zero := by rw [cut_of_lt (by omega), Nat.mul_zero]
  last := if_neg (by omega)
  lt i hi := by
    have hf : 0 < c.order / n := Nat.div_pos hn (by omega)
    have hle := Nat.div_mul_le_self c.order n
    rw [cut_of_lt hi, cut]
    split
    · exact Nat.mul_lt_mul_of_pos_left (by omega) hf
    · exact lt_of_lt_of_le (Nat.mul_lt_mul_of_pos_left hi hf) hle
  two := h2

theorem exponentAt_eq_cut {i : Nat} (hi : i < n) : exponentAt c n i = (cut c n i + c.offset) % c.order := by
  rw [exponentAt, cut_of_lt hi]

theorem exponentAt_next_eq_cut {i : Nat} (hi : i < n) :
    exponentAt c n ((i + 1) % n) = (cut c n (i + 1) + c.offset) % c.order := by
  rcases Nat.lt_or_ge (i + 1) n with hlt | hge
  · rw [Nat.mod_eq_of_lt hlt, exponentAt_eq_cut hlt]
  · obtain rfl : n = i + 1 := by omega
    rw [Nat.mod_self, exponentAt, Nat.mul_zero, Nat.zero_add, cut, if_neg (by omega), Nat.add_comm,
      Nat.add_mod_right]

/-- For more than one subshard the range is a turned piece between two cuts. -/
theorem NoOverflow.exponentRange_eq (h : NoOverflow c n N t T) (hn : n < N) (ht : t < T) (h1 : N * T ≠ 1) :
    exponentRange c n N t T =
      cyclicRange c.order ((cut c (N * T) (subIdx n t T) + c.offset) % c.order)
        ((cut c (N * T) (subIdx n t T + 1) + c.offset) % c.order) := by
  rw [exponentRange, if_neg h1, h.begin_eq, h.end_eq, exponentAt_eq_cut (subIdx_lt hn ht),
    exponentAt_next_eq_cut (subIdx_lt hn ht)]

/-- The ranges of all subshards are not empty, pairwise disjoint, and cover the exponents. -/
theorem exponentRange_partitions (c : XmCycle) (hp : 16777259 ≤ c.prime) {numShards numThreads : Nat}
    (hN : 1 ≤ numShards) (hN16 : numShards ≤ 65535) (hT : 1 ≤ numThreads) (hT8 : numThreads ≤ 255) :
    Partitions c numShards numThreads := by
  have horder : c.order = c.prime - 1 := c.order_eq
  have hprod : numShards * numThreads ≤ 65535 * 255 := Nat.mul_le_mul hN16 hT8
  have hpos : 1 ≤ numShards * numThreads := Nat.mul_pos hN hT
  have hno : ∀ n < numShards, ∀ t < numThreads, NoOverflow c n numShards t numThreads :=
    fun n hn t ht => noOverflow_of_lt (by omega) hn ht
  by_cases h1 : numShards * numThreads = 1
  · obtain ⟨rfl, rfl⟩ := mul_eq_one.mp h1
    have hrange : ∀ n t, exponentRange c n 1 t 1 = Set.Iio c.order := fun n t => if_pos rfl
    refine ⟨hno, fun n _ t _ => ?_, fun n hn t ht n' hn' t' ht' hne => ?_, fun e he => ?_⟩
    · rw [hrange]
      exact ⟨0, show 0 < c.order by omega⟩
    · obtain ⟨rfl, rfl, rfl, rfl⟩ : n = 0 ∧ t = 0 ∧ n' = 0 ∧ t' = 0 := by omega
      exact absurd rfl hne
    · refine ⟨0, by omega, 0, by omega, ?_⟩
      rw [hrange]
      exact he
  · have hcuts := cut_cuts (c := c) (show 2 ≤ numShards * numThreads by omega) (by omega)
    have hrange := fun n hn t ht => (hno n hn t ht).exponentRange_eq hn ht h1
    refine ⟨hno, fun n hn t ht => ?_, fun n hn t ht n' hn' t' ht' hne => ?_, fun e he => ?_⟩
    · rw [hrange n hn t ht]
      exact hcuts.nonempty (subIdx_lt hn ht)
    · rw [hrange n hn t ht, hrange n' hn' t' ht']
      exact hcuts.disjoint (subIdx_lt hn ht) (subIdx_lt hn' ht') fun h => hne (subIdx_inj ht ht' h)
    · obtain ⟨i, hi, hmem⟩ := hcuts.cover (k := c.offset) he
      have hn : i / numThreads < numShards := (Nat.div_lt_iff_lt_mul hT).mpr hi
      have ht : i % numThreads < numThreads := Nat.mod_lt _ hT
      refine ⟨_, hn, _, ht, ?_⟩
      rw [hrange _ hn _ ht, subIdx, Nat.div_add_mod']
      exact hmem

end

/-- A cycle of the least group that the partition is about. -/
def cycle24 : XmCycle where
  group := ⟨{ prime := 16777259, knownPrimroot := 2, primeFactors := [2, 23, 103, 3541] }, by decide⟩
  generator := 8
  order := 16777258
  offset := 16777258
  generator_lt := by decide
  order_eq := rfl
  offset_lt := by decide

theorem exponentRange_partitions_most : Partitions cycle24 65535 255 :=
  exponentRange_partitions cycle24 (by decide) (by decide) (by decide) (by decide) (by decide)

/-! ## The subshards of the senders -/

/-- The `sub_idx` that `xm_shard_create` computes for the `i`-th sender of `xm_work_create`. -/
def senderSubIdx (shardNum senders i : Nat) : Nat := subIdx shardNum ((i + 1) % 2 ^ 8) senders

/-- The `sub_idx` of the shards of an instance, from sender `i` on. -/
def workSubIdxs (context : SendContext) : Nat → Nat → List Nat
  | 0, _ => []
  | n + 1, i => senderSubIdx context.shardNum context.senders i :: workSubIdxs context n (i + 1)

/-- The exponents that a shard walks: all when it ends where it begins. -/
def walkedExponents (cycle : XmCycle) (n i : Nat) : Set Nat :=
  if exponentAt cycle n i = exponentAt cycle n ((i + 1) % n) then Set.Iio cycle.order
  else cyclicRange cycle.order (exponentAt cycle n i) (exponentAt cycle n ((i + 1) % n))

/-- No exponent is walked by two senders of the instances. -/
def SendersDisjoint (cycle : XmCycle) (totalShards senders : Nat) : Prop :=
  ∀ n < totalShards, ∀ i < senders, ∀ n' < totalShards, ∀ i' < senders, (n, i) ≠ (n', i') →
    ∀ e ∈ walkedExponents cycle (totalShards * senders) (senderSubIdx n senders i),
      e ∉ walkedExponents cycle (totalShards * senders) (senderSubIdx n' senders i')

/-- The sharding that the comment in `xm_shard_create` describes: subshard `n * T + t` for thread `t` of
instance `n`. -/
structure Promised (totalShards senders : Nat) : Prop where
  own : ∀ context : SendContext, context.totalShards = totalShards → context.senders = senders →
    context.shardNum < totalShards →
      workSubIdxs context senders 0 = List.range' (context.shardNum * senders) senders
  bijective : Set.BijOn (fun p : Nat × Nat => senderSubIdx p.1 senders p.2)
    {p | p.1 < totalShards ∧ p.2 < senders} (Set.Iio (totalShards * senders))
  disjoint : ∀ cycle, SendersDisjoint cycle totalShards senders

section
variable {context : SendContext} {c : XmCycle} {N T : Nat}

theorem workCreateShards_params {fuel : Nat} {st : Nat → ShardState} {n i : Nat} {aes : XmAesrand}
    {shards : List XmShard} (h : workCreateShards fuel st context n i aes = some shards) :
    List.Forall₂ (fun idx s => ∃ c, XmShard.params s = shardParams c (context.totalShards * context.senders) idx)
      (workSubIdxs context n i) shards := by
  induction n generalizing i aes shards with
  | zero =>
    cases h
    exact .nil
  | succ n ih =>
    rw [workCreateShards] at h
    cases hs : sendCreateShard fuel (st i) context aes ((i + 1) % 2 ^ 8) with
    | none =>
      rw [hs] at h
      cases h
    | some r =>
      obtain ⟨c, _, hshard⟩ := sendCreateShard_eq_some.mp hs
      rw [hs] at h
      simp only [Option.map_eq_some_iff] at h
      obtain ⟨rest, hrest, rfl⟩ := h
      exact .cons ⟨c, xmShardCreate_params hshard⟩ (ih hrest)

theorem senderSubIdx_eq {n i : Nat} (hi : i < T) (hT8 : T < 2 ^ 8) : senderSubIdx n T i = subIdx n i T + 1 := by
  rw [senderSubIdx, Nat.mod_eq_of_lt (by omega)]
  rfl

theorem workSubIdxs_eq {n i : Nat} (hle : i + n ≤ context.senders) (hT8 : context.senders < 2 ^ 8) :
    workSubIdxs context n i = List.range' (context.shardNum * context.senders + i + 1) n := by
  induction n generalizing i with
  | zero => rfl
  | succ n ih =>
    rw [workSubIdxs, ih (by omega), senderSubIdx_eq (by omega) hT8, List.range'_succ]
    rfl

theorem walkedExponents_of_lt {S i : Nat} (h2 : 2 ≤ S) (hS : S ≤ c.order) (hi : i < S) :
    walkedExponents c S i =
      cyclicRange c.order ((cut c S i + c.offset) % c.order) ((cut c S (i + 1) + c.offset) % c.order) := by
  rw [walkedExponents, exponentAt_next_eq_cut hi, exponentAt_eq_cut hi, if_neg]
  intro heq
  have hne := (cut_cuts h2 hS).nonempty (k := c.offset) hi
  rw [← heq, cyclicRange_self (Nat.mod_lt _ (by omega))] at hne
  exact Set.not_nonempty_empty hne

/-- Where the subshards divide the order, the subshard behind the last one is the first. -/
theorem walkedExponents_of_dvd {S : Nat} (hd : S ∣ c.order) :
    walkedExponents c S S = walkedExponents c S 0 := by
  have hbegin : exponentAt c S S = exponentAt c S 0 := by
    rw [exponentAt, exponentAt, Nat.div_mul_cancel hd, Nat.add_mod_left, Nat.mul_zero, Nat.zero_add]
  rw [walkedExponents, walkedExponents, hbegin, Nat.add_mod_left, Nat.zero_add]

/-- Where they do not, it overlaps the last one. -/
theorem walkedExponents_overlap {S : Nat} (h2 : 2 ≤ S) (hS : S < c.order) (hd : ¬ S ∣ c.order) :
    ∃ e ∈ walkedExponents c S (S - 1), e ∈ walkedExponents c S S := by
  have hf : 0 < c.order / S := Nat.div_pos hS.le (by omega)
  have hlt : c.order / S * S < c.order := lt_of_le_of_ne (Nat.div_mul_le_self _ _) fun h =>
    hd (Dvd.intro_left _ h)
  have hmem : exponentAt c S S ∈ walkedExponents c S (S - 1) := by
    rw [walkedExponents_of_lt h2 hS.le (by omega)]
    refine ((cut_cuts h2 hS.le).mem_piece (by omega)).mpr ⟨c.order / S * S, ?_, ?_, ?_⟩
    · rw [cut_of_lt (by omega)]
      exact Nat.mul_le_mul_left _ (by omega)
    · rw [cut, if_neg (by omega)]
      exact hlt
    · rw [exponentAt, Nat.add_comm]
  have hnext : exponentAt c S ((S + 1) % S) = (c.order / S + c.offset) % c.order := by
    rw [Nat.add_mod_left, Nat.mod_eq_of_lt h2, exponentAt, Nat.mul_one]
  have hne : exponentAt c S S ≠ exponentAt c S ((S + 1) % S) := by
    rw [hnext, exponentAt, Nat.add_comm _ c.offset, Nat.add_comm _ c.offset]
    intro heq
    have := add_mod_inj hlt (lt_of_le_of_lt (Nat.le_mul_of_pos_right _ (by omega)) hlt) heq
    have : c.order / S * 2 ≤ c.order / S * S := Nat.mul_le_mul_left _ h2
    omega
  refine ⟨_, hmem, ?_⟩
  rw [walkedExponents, if_neg hne]
  exact left_mem_cyclicRange (exponentAt_lt ..) (exponentAt_lt ..) hne

/-- The subshards from one on, as many as there are. -/
def LaterDisjoint (cycle : XmCycle) (S : Nat) : Prop :=
  ∀ j < S, ∀ j' < S, j ≠ j' → ∀ e ∈ walkedExponents cycle S (j + 1), e ∉ walkedExponents cycle S (j' + 1)

theorem laterDisjoint_iff {S : Nat} (h0 : 0 < S) : LaterDisjoint c S ↔ S ∣ c.order := by
  constructor
  · intro hdisj
    by_contra hd
    have h2 : 2 ≤ S := by
      by_contra hlt
      obtain rfl : S = 1 := by omega
      exact hd (one_dvd _)
    rcases lt_trichotomy S c.order with hS | hS | hS
    · have := hdisj (S - 2) (by omega) (S - 1) (by omega) (by omega)
      rw [show S - 2 + 1 = S - 1 by omega, show S - 1 + 1 = S by omega] at this
      obtain ⟨e, he, he'⟩ := walkedExponents_overlap h2 hS hd
      exact this e he he'
    · exact hd (hS ▸ dvd_rfl)
    · -- every subshard is the whole cycle
      have hall : ∀ i, walkedExponents c S i = Set.Iio c.order := by
        intro i
        simp only [walkedExponents, exponentAt, Nat.div_eq_of_lt hS, Nat.zero_mul, if_true]
      have := hdisj 0 (by omega) 1 (by omega) (by omega)
      rw [hall, hall] at this
      exact this _ (exponentAt_lt (c := c) S 0) (exponentAt_lt (c := c) S 0)
  · intro hd j hj j' hj' hne
    have hQ : 0 < c.order := Nat.zero_lt_of_lt (exponentAt_lt (c := c) S 0)
    have hwrap : ∀ j < S, walkedExponents c S (j + 1) = walkedExponents c S ((j + 1) % S) := by
      intro j hj
      rcases Nat.lt_or_ge (j + 1) S with hlt | hge
      · rw [Nat.mod_eq_of_lt hlt]
      · obtain rfl : S = j + 1 := by omega
        rw [Nat.mod_self, walkedExponents_of_dvd hd]
    have hcuts := cut_cuts (show 2 ≤ S by omega) (Nat.le_of_dvd hQ hd)
    rw [hwrap j hj, hwrap j' hj', walkedExponents_of_lt hcuts.two (Nat.le_of_dvd hQ hd) (Nat.mod_lt _ h0),
      walkedExponents_of_lt hcuts.two (Nat.le_of_dvd hQ hd) (Nat.mod_lt _ h0)]
    refine hcuts.disjoint (Nat.mod_lt _ h0) (Nat.mod_lt _ h0) fun h => hne ?_
    rw [Nat.add_comm j, Nat.add_comm j'] at h
    exact add_mod_inj hj hj' h

/-- The senders of all instances walk disjoint exponents of a common cycle exactly when their number divides
the order. -/
theorem sendersDisjoint_iff (hN : 0 < N) (hT : 0 < T) (hT8 : T < 2 ^ 8) :
    SendersDisjoint c N T ↔ N * T ∣ c.order := by
  rw [← laterDisjoint_iff (Nat.mul_pos hN hT)]
  constructor
  · intro h j hj j' hj' hne
    have hsplit : ∀ j < N * T, j / T < N ∧ j % T < T ∧ senderSubIdx (j / T) T (j % T) = j + 1 := by
      intro j hj
      refine ⟨(Nat.div_lt_iff_lt_mul hT).mpr hj, Nat.mod_lt _ hT, ?_⟩
      rw [senderSubIdx_eq (Nat.mod_lt _ hT) hT8, subIdx, Nat.div_add_mod']
    obtain ⟨hn, hi, hidx⟩ := hsplit j hj
    obtain ⟨hn', hi', hidx'⟩ := hsplit j' hj'
    have := h _ hn _ hi _ hn' _ hi' fun heq => hne (by
      obtain ⟨hq, hr⟩ := Prod.mk.inj heq
      rw [← Nat.div_add_mod' j T, ← Nat.div_add_mod' j' T, hq, hr])
    rwa [hidx, hidx'] at this
  · intro h n hn i hi n' hn' i' hi' hne
    rw [senderSubIdx_eq hi hT8, senderSubIdx_eq hi' hT8]
    exact h _ (subIdx_lt hn hi) _ (subIdx_lt hn' hi') fun heq => hne (subIdx_inj hi hi' heq)

/-- No number of instances and senders gets the subshards of the comment: each instance leaves out its first
one and takes the first one of the next instance. -/
theorem workSubIdxs_not_promised {totalShards senders : Nat} (hN : 1 ≤ totalShards) (hT : 1 ≤ senders)
    (hT8 : senders < 2 ^ 8) : ¬ Promised totalShards senders := by
  intro h
  have hown := h.own ⟨0, totalShards, senders, 0, ⟨xmIptreeCreate 0⟩⟩ rfl rfl hN
  rw [workSubIdxs_eq (Nat.zero_add senders).le hT8] at hown
  obtain ⟨T, rfl⟩ : ∃ k, senders = k + 1 := ⟨senders - 1, by omega⟩
  simp [List.range'_succ] at hown

theorem workSubIdxs_not_promised_single : ¬ Promised 1 1 :=
  workSubIdxs_not_promised (by decide) (by decide) (by decide)

end

/-- Two senders take the subshards 1 and 2 of two, and three senders share exponents of a group of order 256. -/
theorem workSubIdxs_shifted :
    workSubIdxs ⟨0, 1, 2, 0, ⟨xmIptreeCreate 0⟩⟩ 2 0 = [1, 2] ∧ ¬ Promised 1 2 ∧
      ¬ SendersDisjoint leastCycle 1 3 := by
  refine ⟨by decide, fun h => ?_, fun h => ?_⟩
  · exact absurd (h.own ⟨0, 1, 2, 0, ⟨xmIptreeCreate 0⟩⟩ rfl rfl (by decide)) (by decide)
  · rw [sendersDisjoint_iff (by decide) (by decide) (by decide)] at h
    exact absurd h (by decide)

end Xmap.Target
