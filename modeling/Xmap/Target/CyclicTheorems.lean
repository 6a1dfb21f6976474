import Xmap.Target.Lemmas.Drawn

/-!
# Theorems on drawn cycles

The search for a generator, the order of the generator that is stored, and the multiplication by it. Only the
largest group breaks what the others keep: its modulus does not fit the words of the code.
-/

namespace Xmap.Target

open Xmap.Lib

/-! ## The search -/

/-- The candidates that `find_primroot` passes to `check_coprime`, from one on. -/
def passedCandidates (group : XmCyclicGroup) : Nat → Nat → List Nat
  | 0, _ => []
  | fuel + 1, candidate =>
      candidate ::
        match checkCoprime candidate group.primeFactors with
        | some false =>
          let candidate := (candidate + 1) % 2 ^ 32
          passedCandidates group fuel (if group.prime ≤ candidate then 1 else candidate)
        | _ => []

/-- The search ends, without a division by zero, at a generator of the additive group. -/
structure SearchSafe (group : XmCyclicGroup) (aes : XmAesrand) : Prop where
  returns : ∃ generator, (findPrimroot group aes).1 = some generator
  passed : ∀ fuel, ∀ c ∈ passedCandidates group fuel (firstCandidate group (xmAesrandGetword aes).1),
    1 ≤ c ∧ c ≤ group.prime - 1
  coprime : ∀ fuel c, findCandidate group fuel (firstCandidate group (xmAesrandGetword aes).1) = some c →
    c.Coprime (group.prime - 1)

section
variable {g : XmCyclicGroup} {c t : Nat}

theorem passedCandidates_succ (fuel : Nat) :
    passedCandidates g (fuel + 1) c =
      c :: match checkCoprime c g.primeFactors with
        | some false =>
          passedCandidates g fuel (if g.prime ≤ (c + 1) % 2 ^ 32 then 1 else (c + 1) % 2 ^ 32)
        | _ => [] := rfl

/-- Up to a candidate that is accepted, the search neither wraps nor starts again. -/
theorem passedCandidates_le (hct : c ≤ t) (ht : t < g.prime) (ht32 : t < 2 ^ 32)
    (hok : checkCoprime t g.primeFactors = some true) (fuel : Nat) :
    ∀ x ∈ passedCandidates g fuel c, c ≤ x ∧ x ≤ t := by
  induction fuel generalizing c with
  | zero => simp [passedCandidates]
  | succ fuel ih =>
    intro x hx
    rw [passedCandidates_succ] at hx
    rcases List.mem_cons.mp hx with rfl | hx
    · exact ⟨le_rfl, hct⟩
    · split at hx
      · next hcheck =>
        have hne : c ≠ t := by
          rintro rfl
          rw [hok] at hcheck
          cases hcheck
        rw [Nat.mod_eq_of_lt (by omega), if_neg (by omega)] at hx
        obtain ⟨hle, hxt⟩ := ih (by omega) x hx
        exact ⟨by omega, hxt⟩
      · cases hx

theorem passedCandidates_last (hp : 3 < g.prime) (hp32 : g.prime < 2 ^ 32)
    (hok : checkCoprime (g.prime - 2) g.primeFactors = some true) (fuel : Nat) :
    ∀ x ∈ passedCandidates g fuel (g.prime - 1), 1 ≤ x ∧ x ≤ g.prime - 1 := by
  cases fuel with
  | zero => simp [passedCandidates]
  | succ fuel =>
    intro x hx
    rw [passedCandidates_succ] at hx
    rcases List.mem_cons.mp hx with rfl | hx
    · exact ⟨by omega, le_rfl⟩
    · split at hx
      · rw [Nat.sub_add_cancel (by omega), Nat.mod_eq_of_lt hp32, if_pos le_rfl] at hx
        obtain ⟨hle, hxt⟩ := passedCandidates_le (by omega) (by omega) (by omega) hok fuel x hx
        exact ⟨hle, by omega⟩
      · cases hx

end

theorem firstCandidate_pos (g : XmCyclicGroup) (word : Nat) : 0 < firstCandidate g word := by
  simp only [firstCandidate]
  split <;> omega

theorem firstCandidate_lt {g : XmCyclicGroup} (hp : 1 < g.prime) (word : Nat) :
    firstCandidate g word < g.prime := by
  have := Nat.mod_lt (word % 2 ^ 32) (show 0 < g.prime by omega)
  simp only [firstCandidate]
  split <;> omega

/-- In the largest group the candidate 2^32 - 3 is accepted, and the two behind it are not. -/
theorem passedCandidates_largest {g : GroupPtr} (hp : g.val.prime = prime32) {word : Nat}
    (hw : word % 2 ^ 32 < 2 ^ 32 - 2) (fuel : Nat) :
    ∀ x ∈ passedCandidates g.val fuel (firstCandidate g.val word), 1 ≤ x ∧ x ≤ g.val.prime - 1 := by
  have htab : ∀ g ∈ groups, g.prime = prime32 →
      checkCoprime (2 ^ 32 - 3) g.primeFactors = some true := by decide
  have hfirst : firstCandidate g.val word ≤ 2 ^ 32 - 3 := by
    simp only [firstCandidate, hp, Nat.mod_eq_of_lt (show word % 2 ^ 32 < prime32 by unfold prime32; omega)]
    split <;> omega
  intro x hx
  obtain ⟨hle, hxt⟩ := passedCandidates_le hfirst (by rw [hp]; decide) (by decide)
    (htab g.val g.property hp) fuel x hx
  have := firstCandidate_pos g.val word
  exact ⟨by omega, by rw [hp, show prime32 - 1 = 4294967310 from rfl]; omega⟩

theorem passedCandidates_smaller {g : GroupPtr} (hp : g.val.prime < 2 ^ 32) (word fuel : Nat) :
    ∀ x ∈ passedCandidates g.val fuel (firstCandidate g.val word), 1 ≤ x ∧ x ≤ g.val.prime - 1 := by
  have htab : ∀ g ∈ groups, g.prime < 2 ^ 32 → 3 < g.prime ∧
      checkCoprime (g.prime - 2) g.primeFactors = some true := by decide
  obtain ⟨h3, hok⟩ := htab g.val g.property hp
  have hpos := firstCandidate_pos g.val word
  have hlt := firstCandidate_lt (show 1 < g.val.prime by omega) word
  rcases Nat.lt_or_ge (firstCandidate g.val word) (g.val.prime - 1) with hle | hge
  · intro x hx
    obtain ⟨hcx, hxt⟩ := passedCandidates_le (show _ ≤ g.val.prime - 2 by omega) (by omega) (by omega)
      hok fuel x hx
    exact ⟨by omega, by omega⟩
  · rw [show firstCandidate g.val word = g.val.prime - 1 by omega]
    exact passedCandidates_last h3 hp hok fuel

/-- The search is safe except in the largest group from the last two words on: there the candidate wraps to
0. -/
theorem findPrimroot_safe_iff (g : GroupPtr) (aes : XmAesrand) :
    SearchSafe g.val aes ↔
      ¬ (g.val.prime = prime32 ∧ 2 ^ 32 - 2 ≤ (aes.stream aes.pos).val % 2 ^ 32) := by
  constructor
  · rintro ⟨⟨generator, hr⟩, _, _⟩ hwrap
    rw [(findPrimroot_eq_none g aes).mpr hwrap] at hr
    cases hr
  · intro hno
    refine ⟨?_, fun fuel => ?_, fun fuel c hc => ?_⟩
    · rw [← Option.ne_none_iff_exists']
      exact fun hnone => hno ((findPrimroot_eq_none g aes).mp hnone)
    · rcases groups_prime_eq_or_lt g with hp | hp
      · exact passedCandidates_largest hp (Nat.lt_of_not_le fun hle => hno ⟨hp, hle⟩) fuel
      · exact passedCandidates_smaller hp _ fuel
    · exact (groups_sound g).coprime (findCandidate_sound hc)

/-- The largest group. -/
def group32 : GroupPtr := ⟨⟨4294967311, 3, [2, 3, 5, 131, 364289]⟩, by decide⟩

/-- The word 2^32 - 1 leads to the candidate 0. -/
theorem findPrimroot_wraps :
    0 ∈ passedCandidates group32.val 2 (firstCandidate group32.val (2 ^ 32 - 1)) ∧
      ¬ SearchSafe group32.val ⟨fun _ => 2 ^ 32 - 1, 0⟩ := by
  refine ⟨by decide, fun hsafe => ?_⟩
  obtain ⟨generator, hr⟩ := hsafe.returns
  rw [(findPrimroot_eq_none group32 _).mpr ⟨rfl, by decide⟩] at hr
  cases hr

/-! ## The stored generator -/

/-- The search of `find_primroot` stops at the candidate. -/
def StopsAt (group : XmCyclicGroup) (aes : XmAesrand) (candidate : Nat) : Prop :=
  findCandidate group (2 ^ 33) (firstCandidate group (xmAesrandGetword aes).1) = some candidate

/-- What `find_primroot` returns for the candidate, and a cycle stores, has the order of the group. -/
def CandidateGenerates (group : GroupPtr) (candidate : Nat) : Prop :=
  ∀ aes cycle aes', StopsAt group.val aes candidate → xmMakeCycle group aes = some (cycle, aes') →
    (findPrimroot group.val aes).1 = some cycle.generator ∧
      orderOf (cycle.generator : ZMod group.val.prime) = group.val.prime - 1

/-- The exponents of the generators from 2^32 on whose low word is none. -/
def truncatedCandidates : List Nat := [778923947, 743194021, 2147483657, 2965163149]

section
variable {g : GroupPtr} {c : Nat}

theorem findPrimroot_of_stopsAt {aes : XmAesrand} (h : StopsAt g.val aes c) :
    (findPrimroot g.val aes).1 = some (xmIsomorphism c g.val % 2 ^ 32) := by
  rw [StopsAt] at h
  simp only [findPrimroot, h, Option.map_some]

theorem stopsAt_const (h1 : 1 ≤ c) (hp : c < g.val.prime) (h32 : c < 2 ^ 32)
    (hc : checkCoprime c g.val.primeFactors = some true) (pos : Nat) {stream : Nat → Fin (2 ^ 64)}
    (hword : (stream pos).val = c) : StopsAt g.val ⟨stream, pos⟩ c := by
  have hfirst : firstCandidate g.val c = c := by
    simp only [firstCandidate, Nat.mod_eq_of_lt h32, Nat.mod_eq_of_lt hp]
    rw [if_neg (by omega)]
  rw [StopsAt, xmAesrandGetword, hword, hfirst, show 2 ^ 33 = 2 ^ 33 - 1 + 1 from rfl, findCandidate, hc]

theorem exists_xmMakeCycle {generator : Nat} {aes : XmAesrand}
    (h : (findPrimroot g.val aes).1 = some generator) :
    ∃ cycle aes', xmMakeCycle g aes = some (cycle, aes') ∧ cycle.group = g ∧
      cycle.generator = generator ∧
        cycle.offset = (aes.stream (aes.pos + 1)).val % 2 ^ 32 % g.val.prime := by
  unfold xmMakeCycle
  split
  · next hnone =>
    rw [h] at hnone
    cases hnone
  · next generator' hsome =>
    rw [h] at hsome
    cases hsome
    exact ⟨_, _, rfl, rfl, rfl, rfl⟩

theorem candidateGenerates_iff (h1 : 1 ≤ c) (hp : c < g.val.prime) (h32 : c < 2 ^ 32)
    (hc : checkCoprime c g.val.primeFactors = some true) :
    CandidateGenerates g c ↔ IsGenerator (xmIsomorphism c g.val % 2 ^ 32) g.val.prime := by
  rw [IsGenerator, IsPrimitiveRoot.iff_orderOf]
  constructor
  · intro h
    have hstop : StopsAt g.val ⟨fun _ => ⟨c, by omega⟩, 0⟩ c := stopsAt_const h1 hp h32 hc 0 rfl
    obtain ⟨cycle, aes', hmake, _, hgen, _⟩ := exists_xmMakeCycle (findPrimroot_of_stopsAt hstop)
    rw [← hgen]
    exact (h _ cycle aes' hstop hmake).2
  · intro h aes cycle aes' hstop hmake
    have hr := findPrimroot_of_stopsAt hstop
    obtain ⟨cycle', aes'', hmake', _, hgen, _⟩ := exists_xmMakeCycle hr
    obtain ⟨rfl, rfl⟩ := Prod.mk.inj (Option.some.inj (hmake.symm.trans hmake'))
    rw [hgen]
    exact ⟨hr, h⟩

end

/-! ## Residues of the largest group -/

section
variable {a n r : Nat}

theorem not_isGenerator_of_pow (h0 : 0 < n) (hn : n < prime32 - 1) (h : (a : ZMod prime32) ^ n = 1) :
    ¬ IsGenerator a prime32 := by
  intro hg
  exact absurd (Nat.le_of_dvd h0 (hg.dvd_of_pow_eq_one n h)) (by omega)

theorem pow_three_mod (h : (3 : ZMod prime32) ^ n = r) (hr : r < prime32) : 3 ^ n % prime32 = r := by
  have hcast : ((3 ^ n : Nat) : ZMod prime32) = (r : Nat) := by
    rw [Nat.cast_pow]
    exact h
  rw [ZMod.natCast_eq_natCast_iff, Nat.ModEq, Nat.mod_eq_of_lt hr] at hcast
  exact hcast

theorem exponent_unique (hc : c < prime32 - 1) (hn : n < prime32 - 1)
    (h : 3 ^ c % prime32 = 3 ^ n % prime32) : c = n := by
  have := isGenerator_three.pow_mod_eq_iff.mp h
  rwa [Nat.mod_eq_of_lt hc, Nat.mod_eq_of_lt hn] at this

/-- Residues that are no generators, each with an exponent at which its power is 1: those from 2^32 on, and
the low words of the other ones from 2^32 on. -/
def nonGenerators : List (Nat × Nat) := [
  (4294967296, 2147483655), (4294967298, 2147483655), (4294967299, 2147483655),
  (4294967301, 858993462), (4294967303, 1431655770), (4294967304, 1431655770),
  (4294967305, 2147483655), (4294967306, 1431655770), (4294967308, 2147483655),
  (4294967310, 1431655770), (1, 2147483655), (4, 2147483655), (6, 1431655770), (11, 2147483655)]

theorem nonGenerators_pow : ∀ e ∈ nonGenerators, ((e.1 : Nat) : ZMod prime32) ^ e.2 = 1 := by
  simp only [nonGenerators, List.forall_mem_cons, List.not_mem_nil, false_implies, implies_true,
    and_true, Nat.cast_ofNat, Nat.cast_one]
  refine ⟨?_, ?_, ?_, ?_, ?_, ?_, ?_, ?_, ?_, ?_, ?_, ?_, ?_, ?_⟩ <;> unfold prime32 <;>
    reduce_mod_char

theorem nonGenerators_not : ∀ e ∈ nonGenerators, ¬ IsGenerator e.1 prime32 := by
  have hexp : ∀ e ∈ nonGenerators, 0 < e.2 ∧ e.2 < prime32 - 1 := by decide
  exact fun e he => not_isGenerator_of_pow (hexp e he).1 (hexp e he).2 (nonGenerators_pow e he)

/-- The exponents of the generators from 2^32 on. -/
def largeExponents : List (Nat × Nat) := [
  (778923947, 4294967297), (743194021, 4294967300), (2147483657, 4294967302),
  (2965163149, 4294967307), (408839747, 4294967309)]

theorem largeExponents_pow : ∀ e ∈ largeExponents, 3 ^ e.1 % prime32 = e.2 := by
  have hcast : ∀ e ∈ largeExponents, (3 : ZMod prime32) ^ e.1 = (e.2 : Nat) := by
    simp only [largeExponents, List.forall_mem_cons, List.not_mem_nil, false_implies, implies_true,
      and_true, Nat.cast_ofNat]
    refine ⟨?_, ?_, ?_, ?_, ?_⟩ <;> unfold prime32 <;> reduce_mod_char
  have hlt : ∀ e ∈ largeExponents, e.2 < prime32 := by decide
  exact fun e he => pow_three_mod (hcast e he) (hlt e he)

theorem mem_largeExponents {c k : Nat} (hc : c < prime32 - 1) (hk : k < 15)
    (hg : IsGenerator (2 ^ 32 + k) prime32) (h : 3 ^ c % prime32 = 2 ^ 32 + k) :
    (c, 2 ^ 32 + k) ∈ largeExponents := by
  have htab : ∀ k < 15, (∃ e ∈ nonGenerators, 2 ^ 32 + k = e.1) ∨
      ∃ e ∈ largeExponents, e.2 = 2 ^ 32 + k ∧ e.1 < prime32 - 1 := by decide
  rcases htab k hk with ⟨e, he, hke⟩ | ⟨e, he, hke, hlt⟩
  · exact absurd (hke ▸ hg) (nonGenerators_not e he)
  · obtain rfl : c = e.1 := exponent_unique hc hlt (by rw [h, largeExponents_pow e he, hke])
    rwa [← hke]

end

theorem isGenerator_lowWord_iff {c : Nat} (hc : c < prime32 - 1) (hg : IsGenerator (3 ^ c % prime32) prime32) :
    IsGenerator (3 ^ c % prime32 % 2 ^ 32) prime32 ↔ c ∉ truncatedCandidates := by
  have hlt : 3 ^ c % prime32 < 2 ^ 32 + 15 := Nat.mod_lt _ (by decide)
  rcases Nat.lt_or_ge (3 ^ c % prime32) (2 ^ 32) with hsmall | hlarge
  · rw [Nat.mod_eq_of_lt hsmall]
    refine iff_of_true hg fun hmem => ?_
    have htab : ∀ c ∈ truncatedCandidates, ∃ e ∈ largeExponents, e.1 = c ∧ 2 ^ 32 ≤ e.2 := by decide
    obtain ⟨e, he, rfl, hle⟩ := htab c hmem
    rw [largeExponents_pow e he] at hsmall
    omega
  · obtain ⟨k, hk⟩ := Nat.exists_eq_add_of_le hlarge
    have hmem := mem_largeExponents hc (show k < 15 by omega) (hk ▸ hg) hk
    have htab : ∀ e ∈ largeExponents,
        (e.1 ∈ truncatedCandidates ∧ ∃ f ∈ nonGenerators, e.2 % 2 ^ 32 = f.1) ∨
          (e.1 ∉ truncatedCandidates ∧ e.2 % 2 ^ 32 = 13) := by decide
    rw [hk]
    rcases htab _ hmem with ⟨hin, f, hf, hlow⟩ | ⟨hout, hlow⟩
    · rw [hlow]
      exact iff_of_false (nonGenerators_not f hf) (not_not.mpr hin)
    · rw [hlow]
      exact iff_of_true isGenerator_thirteen hout

/-- The stored generator is one of the group exactly when the candidate is not one of four in the largest
group, whose generators need 33 bits. -/
theorem xmMakeCycle_generates_iff (g : GroupPtr) {c : Nat} (h2 : 2 ≤ c) (hp : c < g.val.prime)
    (h32 : c < 2 ^ 32) (hc : checkCoprime c g.val.primeFactors = some true) :
    CandidateGenerates g c ↔ (g.val.prime = prime32 → c ∉ truncatedCandidates) := by
  have : Fact g.val.prime.Prime := ⟨(groups_sound g).prime⟩
  rw [candidateGenerates_iff (by omega) hp h32 hc]
  have hx : IsGenerator (xmIsomorphism c g.val) g.val.prime := by
    rw [xmIsomorphism, mpzPowm, IsGenerator, ZMod.natCast_mod, Nat.cast_pow]
    exact (groups_sound g).isGenerator.pow_of_coprime c ((groups_sound g).coprime hc)
  have hlt : xmIsomorphism c g.val < g.val.prime := Nat.mod_lt _ (groups_sound g).prime.pos
  rcases groups_prime_eq_or_lt g with hprime | hprime
  · have hprime : g.val.prime = prime32 := hprime
    have hroot : xmIsomorphism c g.val = 3 ^ c % prime32 := by
      have htab : ∀ g ∈ groups, g.prime = prime32 → g.knownPrimroot = 3 := by decide
      rw [xmIsomorphism, mpzPowm, htab g.val g.property hprime, hprime]
    rw [hroot, hprime] at hx
    rw [hroot, hprime, isGenerator_lowWord_iff (by unfold prime32; omega) hx]
    simp
  · rw [Nat.mod_eq_of_lt (by omega)]
    refine iff_of_true hx fun heq => ?_
    rw [heq, prime32] at hprime
    omega

theorem xmMakeCycle_generates_iff_seven :
    CandidateGenerates group32 7 ↔ (group32.val.prime = prime32 → 7 ∉ truncatedCandidates) :=
  xmMakeCycle_generates_iff group32 (by decide) (by decide) (by decide) (by decide)

theorem not_candidateGenerates_of_mem {e : Nat × Nat} (he : e ∈ largeExponents)
    (hn : ¬ IsGenerator (e.2 % 2 ^ 32) prime32) : ¬ CandidateGenerates group32 e.1 := by
  have htab : ∀ e ∈ largeExponents, 1 ≤ e.1 ∧ e.1 < 2 ^ 32 ∧
      checkCoprime e.1 group32.val.primeFactors = some true := by decide
  obtain ⟨h1, h32, hc⟩ := htab e he
  rw [candidateGenerates_iff h1 (lt_trans h32 (by decide)) h32 hc]
  have hpow : xmIsomorphism e.1 group32.val = e.2 := largeExponents_pow e he
  rwa [hpow]

/-- The candidate 2147483657 gives 2^32 + 6, of which 6 is stored. -/
theorem xmMakeCycle_truncated :
    checkCoprime 2147483657 group32.val.primeFactors = some true ∧
      ¬ CandidateGenerates group32 2147483657 := by
  refine ⟨by decide, ?_⟩
  exact not_candidateGenerates_of_mem (e := (2147483657, 4294967302)) (by decide)
    (nonGenerators_not (6, 1431655770) (by decide))

/-! ## Products -/

/-- `xm_make_cycle` can store the generator. -/
def Stores (group : GroupPtr) (generator : Nat) : Prop :=
  ∃ aes cycle aes', xmMakeCycle group aes = some (cycle, aes') ∧ cycle.generator = generator

/-- From the first element of a shard on, every product of `shard_get_next_elem` fits a word, and every step is
the multiplication in the group. -/
def MulExact (group : GroupPtr) (generator : Nat) : Prop :=
  ∀ aes cycle aes', xmMakeCycle group aes = some (cycle, aes') → cycle.generator = generator →
    ∀ st n i maxTotalTargets maxIndex wblist k, i < n →
      let s := XmShard.mulFactor^[k] (newShard st n i maxTotalTargets maxIndex cycle wblist)
      s.current * s.params.factor < 2 ^ 64 ∧
        s.mulFactor.current = s.current * generator % group.val.prime

section
variable {g : GroupPtr} {r : Nat}

theorem findPrimroot_fst_congr {aes aes' : XmAesrand}
    (h : aes'.stream aes'.pos = aes.stream aes.pos) :
    (findPrimroot g.val aes').1 = (findPrimroot g.val aes).1 := by
  simp only [findPrimroot, xmAesrandGetword, h]

/-- With the generator any offset below 2^32 can be drawn. -/
theorem Stores.exists_offset (h : Stores g r) {offset : Nat} (ho : offset < 2 ^ 32)
    (hp : offset < g.val.prime) :
    ∃ aes cycle aes', xmMakeCycle g aes = some (cycle, aes') ∧ cycle.group = g ∧
      cycle.generator = r ∧ cycle.offset = offset := by
  obtain ⟨aes, cycle, aes', hmake, rfl⟩ := h
  have hr := (xmMakeCycle_eq_some hmake).2
  have hcongr : (findPrimroot g.val
      ⟨fun pos => if pos = aes.pos then aes.stream aes.pos else ⟨offset, by omega⟩, aes.pos⟩).1 =
        some cycle.generator := by
    rw [← hr]
    exact findPrimroot_fst_congr (if_pos rfl)
  obtain ⟨cycle', aes'', hmake', hgroup, hgen, hoff⟩ := exists_xmMakeCycle hcongr
  refine ⟨_, cycle', aes'', hmake', hgroup, hgen, ?_⟩
  have hne : aes.pos + 1 ≠ aes.pos := by omega
  simp only [hoff, if_neg hne, Nat.mod_eq_of_lt ho, Nat.mod_eq_of_lt hp]

theorem iterate_mulFactor (s : XmShard) (k : Nat) :
    XmShard.mulFactor^[k] s = { s with current := s.params.step^[k] s.current } := by
  induction k with
  | zero => rfl
  | succ k ih =>
    rw [Function.iterate_succ_apply', ih, Function.iterate_succ_apply']
    rfl

/-- Half way through the group the powers of a generator are at -1. -/
theorem IsGenerator.pow_half {p a k : Nat} (hp : p.Prime) (hk : p - 1 = 2 * k) (h0 : 0 < k)
    (ha : IsGenerator a p) : a ^ k % p = p - 1 := by
  have : Fact p.Prime := ⟨hp⟩
  have hsq : ((a : ZMod p) ^ k) * (a : ZMod p) ^ k = 1 := by
    rw [← pow_add, ← two_mul, ← hk]
    exact ha.pow_eq_one
  have hne : (a : ZMod p) ^ k ≠ 1 := fun hone =>
    absurd (Nat.le_of_dvd h0 (ha.dvd_of_pow_eq_one k hone)) (by omega)
  have hneg : (a : ZMod p) ^ k = ((p - 1 : Nat) : ZMod p) := by
    rw [(mul_self_eq_one_iff.mp hsq).resolve_left hne, Nat.cast_sub hp.one_le]
    simp
  rw [← Nat.cast_pow, ZMod.natCast_eq_natCast_iff, Nat.ModEq,
    Nat.mod_eq_of_lt (show p - 1 < p by have := hp.pos; omega)] at hneg
  exact hneg

/-- A generator within 13 of 2^32 overflows at the residue -1, where some shard starts. -/
theorem Stores.not_mulExact (h : Stores g r) (hp : g.val.prime = prime32) (hr : 2 ^ 32 - 13 ≤ r) :
    ¬ MulExact g r := by
  intro hexact
  obtain ⟨aes, cycle, aes', hmake, hgroup, hgen, hoff⟩ :=
    h.exists_offset (show 2147483655 < 2 ^ 32 by decide) (by rw [hp]; decide)
  have hdraw := drawn_of_make hmake
  have hcp : cycle.prime = prime32 := by rw [← hp, ← hgroup]
  have hroot : IsGenerator cycle.generator cycle.prime := by
    rcases hdraw.cases with hg | ⟨_, hsmall⟩
    · exact hg
    · omega
  have hexp : exponentAt cycle 1 0 = 2147483655 := by
    rw [exponentAt, hoff, cycle.order_eq, Nat.mul_zero, Nat.zero_add]
    exact Nat.mod_eq_of_lt (by rw [show cycle.group.val.prime = prime32 from hcp]; decide)
  have hfirst : cycle.start 1 0 = prime32 - 1 := by
    rw [XmCycle.start, hexp, IsGenerator.pow_half cycle.isPrime (by rw [hcp]; rfl) (by decide) hroot, hcp]
  have hlt : cycle.start 1 0 * cycle.generator < 2 ^ 64 :=
    (hexact aes cycle aes' hmake hgen ⟨0, 0, 0, 0, 0, 0, 0⟩ 1 0 0 0 ⟨xmIptreeCreate 0⟩ 0 (by decide)).1
  rw [hfirst, hgen] at hlt
  have : (prime32 - 1) * (2 ^ 32 - 13) ≤ (prime32 - 1) * r := Nat.mul_le_mul_left _ hr
  exact absurd (show 2 ^ 64 ≤ (prime32 - 1) * (2 ^ 32 - 13) by decide) (by omega)

theorem fits_of_stored {c : XmCycle} (hsmall : c.prime = prime32 → c.generator < 2 ^ 32 - 13) : c.Fits := by
  rcases groups_prime_eq_or_lt c.group with hp | hp
  · have hp : c.prime = prime32 := hp
    have hle : (prime32 - 1) * c.generator ≤ (prime32 - 1) * (2 ^ 32 - 14) :=
      Nat.mul_le_mul_left _ (by have := hsmall hp; omega)
    rw [XmCycle.Fits, hp]
    exact lt_of_le_of_lt hle (by decide)
  · exact XmCycle.fits_of_prime_lt hp

/-- The products of a walk all fit a word exactly when the generator is not one of those above 2^32 - 14 in the
largest group. -/
theorem mulFactor_exact_iff (g : GroupPtr) {r : Nat} (h : Stores g r) :
    MulExact g r ↔ (g.val.prime = prime32 → r < 2 ^ 32 - 13) := by
  constructor
  · intro hexact hp
    by_contra hge
    exact h.not_mulExact hp (Nat.le_of_not_lt hge) hexact
  · intro hsmall aes cycle aes' hmake hgen st n i maxTotal maxIndex wblist k _
    obtain ⟨hgroup, _⟩ := xmMakeCycle_eq_some hmake
    subst hgroup
    subst hgen
    have hf : cycle.Fits := fits_of_stored hsmall
    have hlt : cycle.step^[k] (cycle.start n i) < cycle.prime := cycle.iterate_step_lt (cycle.start_lt n i) k
    have hle : cycle.step^[k] (cycle.start n i) * cycle.generator ≤ (cycle.prime - 1) * cycle.generator :=
      Nat.mul_le_mul_right _ (by omega)
    rw [iterate_mulFactor]
    exact ⟨lt_of_le_of_lt hle hf, cycle.step_eq hf hlt⟩

end

theorem stores_of_pow {c r : Nat} (h1 : 1 ≤ c) (h32 : c < 2 ^ 32)
    (hc : checkCoprime c group32.val.primeFactors = some true) (h : 3 ^ c % prime32 = r) (hr : r < 2 ^ 32) :
    Stores group32 r := by
  have hstop : StopsAt group32.val ⟨fun _ => ⟨c, by omega⟩, 0⟩ c :=
    stopsAt_const h1 (lt_trans h32 (by decide)) h32 hc 0 rfl
  obtain ⟨cycle, aes', hmake, _, hgen, _⟩ := exists_xmMakeCycle (findPrimroot_of_stopsAt hstop)
  refine ⟨_, cycle, aes', hmake, ?_⟩
  have hpow : xmIsomorphism c group32.val = r := h
  rw [hgen, hpow, Nat.mod_eq_of_lt hr]

theorem mulFactor_exact_iff_seven :
    MulExact group32 2187 ↔ (group32.val.prime = prime32 → 2187 < 2 ^ 32 - 13) :=
  mulFactor_exact_iff group32
    (stores_of_pow (c := 7) (by decide) (by decide) (by decide) (by decide) (by decide))

theorem stores_max : Stores group32 4294967295 := by
  have hpow : (3 : ZMod prime32) ^ 3782842643 = (4294967295 : Nat) := by
    rw [Nat.cast_ofNat]
    unfold prime32
    reduce_mod_char
  exact stores_of_pow (c := 3782842643) (by decide) (by decide) (by decide)
    (pow_three_mod hpow (by decide)) (by decide)

/-- The generator 2^32 - 1 overflows. -/
theorem mulFactor_overflows : Stores group32 4294967295 ∧ ¬ MulExact group32 4294967295 :=
  ⟨stores_max, stores_max.not_mulExact rfl (by decide)⟩

end Xmap.Target
