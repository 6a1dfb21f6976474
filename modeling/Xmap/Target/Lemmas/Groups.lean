import Xmap.Lib.PrimeWalk
import Xmap.Target.Cyclic

/-!
# The table of groups

Every modulus of the table is prime, its known root is primitive and its list of factors is complete,
so a candidate that passes `check_coprime` gives a generator. The stored generator is the low word of
it.
-/

namespace Xmap.Target

open Xmap.Lib

/-- What the table promises of a group. -/
structure XmCyclicGroup.Sound (g : XmCyclicGroup) : Prop where
  prime : g.prime.Prime
  isGenerator : IsGenerator g.knownPrimroot g.prime
  factors : ∀ q, q.Prime → q ∣ g.prime - 1 → q ∈ g.primeFactors

theorem mem_of_prime_dvd_prod {q : Nat} (hq : q.Prime) {qs : List Nat} (hqs : ∀ r ∈ qs, r.Prime)
    (hd : q ∣ qs.prod) : q ∈ qs := by
  obtain ⟨r, hr, hqr⟩ := (Prime.dvd_prod_iff hq.prime).mp hd
  rwa [(Nat.prime_dvd_prime_iff_eq hq (hqs r hr)).mp hqr]

theorem sound_of_factorisation {g : XmCyclicGroup} (qs : List Nat) (hp : 1 < g.prime)
    (hprod : qs.prod = g.prime - 1) (hqs : ∀ q ∈ qs, q.Prime) (hsub : ∀ q ∈ qs, q ∈ g.primeFactors)
    (ha : (g.knownPrimroot : ZMod g.prime) ^ (g.prime - 1) = 1)
    (hne : ∀ q ∈ g.primeFactors, (g.knownPrimroot : ZMod g.prime) ^ ((g.prime - 1) / q) ≠ 1) :
    g.Sound := by
  have hf : ∀ q, q.Prime → q ∣ g.prime - 1 → q ∈ g.primeFactors := fun q hq hd =>
    hsub q (mem_of_prime_dvd_prod hq hqs (hprod ▸ hd))
  obtain ⟨hprime, hgen⟩ := prime_and_isGenerator hp hf ha hne
  exact ⟨hprime, hgen, hf⟩

theorem sound_257 : XmCyclicGroup.Sound ⟨257, 3, [2]⟩ := by
  refine sound_of_factorisation (List.replicate 8 2) (by decide) (by decide) ?_ ?_ ?_ ?_
  · intro q hq
    rw [List.eq_of_mem_replicate hq]
    exact Nat.prime_two
  · intro q hq
    simp [List.eq_of_mem_replicate hq]
  · show (3 : ZMod 257) ^ 256 = 1
    reduce_mod_char
  · intro q hq
    rw [List.mem_singleton.mp hq]
    show (3 : ZMod 257) ^ 128 ≠ 1
    reduce_mod_char
    decide

theorem sound_65537 : XmCyclicGroup.Sound ⟨65537, 3, [2]⟩ := by
  refine sound_of_factorisation (List.replicate 16 2) (by decide) (by decide) ?_ ?_ ?_ ?_
  · intro q hq
    rw [List.eq_of_mem_replicate hq]
    exact Nat.prime_two
  · intro q hq
    simp [List.eq_of_mem_replicate hq]
  · show (3 : ZMod 65537) ^ 65536 = 1
    reduce_mod_char
  · intro q hq
    rw [List.mem_singleton.mp hq]
    show (3 : ZMod 65537) ^ 32768 ≠ 1
    reduce_mod_char
    decide

theorem sound_16777259 : XmCyclicGroup.Sound ⟨16777259, 2, [2, 23, 103, 3541]⟩ := by
  refine sound_of_factorisation [2, 23, 103, 3541] (by decide) (by norm_num) ?_ (by simp) ?_ ?_
  · simp only [List.forall_mem_cons, List.not_mem_nil, false_implies, implies_true, and_true]
    norm_num
  · show (2 : ZMod 16777259) ^ 16777258 = 1
    reduce_mod_char
  · simp only [List.forall_mem_cons, List.not_mem_nil, false_implies, implies_true, and_true,
      Nat.add_one_sub_one, Nat.reduceDiv, Nat.cast_ofNat]
    refine ⟨?_, ?_, ?_, ?_⟩ <;> reduce_mod_char <;> decide

theorem sound_268435459 : XmCyclicGroup.Sound ⟨268435459, 2, [2, 3, 19, 87211]⟩ := by
  refine sound_of_factorisation [2, 3, 3, 3, 3, 19, 87211] (by decide) (by norm_num) ?_ (by simp)
    ?_ ?_
  · simp only [List.forall_mem_cons, List.not_mem_nil, false_implies, implies_true, and_true]
    norm_num
  · show (2 : ZMod 268435459) ^ 268435458 = 1
    reduce_mod_char
  · simp only [List.forall_mem_cons, List.not_mem_nil, false_implies, implies_true, and_true,
      Nat.reduceSub, Nat.reduceDiv, Nat.cast_ofNat]
    refine ⟨?_, ?_, ?_, ?_⟩ <;> reduce_mod_char <;> decide

theorem sound_4294967311 : XmCyclicGroup.Sound ⟨4294967311, 3, [2, 3, 5, 131, 364289]⟩ := by
  refine sound_of_factorisation [2, 3, 3, 5, 131, 364289] (by decide) (by norm_num) ?_ (by simp)
    ?_ ?_
  · simp only [List.forall_mem_cons, List.not_mem_nil, false_implies, implies_true, and_true]
    norm_num
  · show (3 : ZMod 4294967311) ^ 4294967310 = 1
    reduce_mod_char
  · simp only [List.forall_mem_cons, List.not_mem_nil, false_implies, implies_true, and_true,
      Nat.reduceSub, Nat.reduceDiv, Nat.cast_ofNat]
    refine ⟨?_, ?_, ?_, ?_, ?_⟩ <;> reduce_mod_char <;> decide

theorem groups_sound (g : GroupPtr) : g.val.Sound := by
  obtain ⟨g, hg⟩ := g
  simp only [groups, List.mem_cons, List.not_mem_nil, or_false] at hg
  rcases hg with rfl | rfl | rfl | rfl | rfl
  · exact sound_257
  · exact sound_65537
  · exact sound_16777259
  · exact sound_268435459
  · exact sound_4294967311

/-! ## The generator -/

theorem checkCoprime_isSome {c : Nat} (hc : 0 < c) (qs : List Nat) :
    (checkCoprime c qs).isSome = true := by
  induction qs with
  | nil => rfl
  | cons q qs ih =>
    rw [checkCoprime, if_neg (show c ≠ 0 by omega)]
    split
    · split
      · rfl
      · exact ih
    · split
      · split
        · rfl
        · exact ih
      · rfl

theorem not_dvd_of_checkCoprime {c : Nat} {qs : List Nat} (h : checkCoprime c qs = some true) :
    ∀ q ∈ qs, ¬ q ∣ c := by
  induction qs with
  | nil => simp
  | cons q qs ih =>
    rw [checkCoprime] at h
    intro r hr hd
    rcases lt_trichotomy c q with hlt | rfl | hlt
    · rw [if_pos hlt] at h
      split at h
      · cases h
      · rename_i hc
        split at h
        · cases h
        · rcases List.mem_cons.mp hr with rfl | hr
          · exact absurd (Nat.le_of_dvd (by omega) hd) (by omega)
          · exact ih h r hr hd
    · simp at h
    · rw [if_neg (by omega), if_pos hlt] at h
      split at h
      · cases h
      · rename_i hm
        rcases List.mem_cons.mp hr with rfl | hr
        · exact hm (Nat.mod_eq_zero_of_dvd hd)
        · exact ih h r hr hd

theorem findCandidate_sound {g : XmCyclicGroup} {fuel c r : Nat}
    (h : findCandidate g fuel c = some r) : checkCoprime r g.primeFactors = some true := by
  induction fuel generalizing c with
  | zero => simp [findCandidate] at h
  | succ fuel ih =>
    rw [findCandidate] at h
    split at h
    · cases h
    · cases h
      assumption
    · exact ih h

theorem XmCyclicGroup.Sound.coprime {g : XmCyclicGroup} (hg : g.Sound) {c : Nat}
    (hc : checkCoprime c g.primeFactors = some true) : c.Coprime (g.prime - 1) := by
  refine Nat.coprime_of_dvd fun q hq hdc hdp => ?_
  exact not_dvd_of_checkCoprime hc q (hg.factors q hq hdp) hdc

/-- The generator that `xm_isomorphism` returns, before it is cut to a word. -/
theorem findPrimroot_eq {g : XmCyclicGroup} (hg : g.Sound) {aes : XmAesrand} {r : Nat}
    (h : (findPrimroot g aes).1 = some r) :
    ∃ x, 0 < x ∧ x < g.prime ∧ IsGenerator x g.prime ∧ r = x % 2 ^ 32 := by
  have : Fact g.prime.Prime := ⟨hg.prime⟩
  obtain ⟨c, hc, rfl⟩ := Option.map_eq_some_iff.mp h
  have hcop := hg.coprime (findCandidate_sound hc)
  refine ⟨xmIsomorphism c g, hg.isGenerator.pow_mod_pos c, Nat.mod_lt _ hg.prime.pos, ?_, rfl⟩
  rw [xmIsomorphism, mpzPowm, IsGenerator, ZMod.natCast_mod, Nat.cast_pow]
  exact hg.isGenerator.pow_of_coprime c hcop

theorem groups_prime_eq_or_lt (g : GroupPtr) : g.val.prime = 2 ^ 32 + 15 ∨ g.val.prime < 2 ^ 32 := by
  have : ∀ g ∈ groups, g.prime = 2 ^ 32 + 15 ∨ g.prime < 2 ^ 32 := by decide
  exact this g.val g.property

theorem not_isGenerator_sq {p a : Nat} (hp : p.Prime) (h2 : 2 < p) (h0 : 0 < a) (ha : a < p) :
    ¬ IsGenerator (a ^ 2) p := by
  have : Fact p.Prime := ⟨hp⟩
  intro hg
  obtain ⟨k, hk⟩ := hp.even_sub_one (by omega)
  have hone : ((a ^ 2 : Nat) : ZMod p) ^ k = 1 := by
    rw [Nat.cast_pow, ← pow_mul, two_mul, ← hk]
    exact ZMod.pow_card_sub_one_eq_one (IsGenerator.cast_ne_zero h0 ha)
  have := Nat.le_of_dvd (by omega) (hg.dvd_of_pow_eq_one k hone)
  omega

/-- The stored generator is the generator itself, or a small number when that needs 33 bits. -/
theorem findPrimroot_cases (g : GroupPtr) {aes : XmAesrand} {r : Nat}
    (h : (findPrimroot g.val aes).1 = some r) :
    0 < r ∧ (IsGenerator r g.val.prime ∨ g.val.prime = 2 ^ 32 + 15 ∧ r < 15) := by
  obtain ⟨x, h0, hx, hgen, rfl⟩ := findPrimroot_eq (groups_sound g) h
  by_cases hlt : x < 2 ^ 32
  · rw [Nat.mod_eq_of_lt hlt]
    exact ⟨h0, Or.inl hgen⟩
  · have hp := (groups_prime_eq_or_lt g).resolve_right (by omega)
    have hne : x ≠ 2 ^ 32 := by
      rintro rfl
      have hprime : Nat.Prime (2 ^ 32 + 15) := hp ▸ (groups_sound g).prime
      rw [hp] at hgen
      exact not_isGenerator_sq (a := 2 ^ 16) hprime (by norm_num) (by norm_num) (by norm_num)
        (by simpa using hgen)
    exact ⟨by omega, Or.inr ⟨hp, by omega⟩⟩

/-! ## The trap -/

/-- The search finds a candidate that it reaches without wrapping. -/
theorem findCandidate_isSome {g : XmCyclicGroup} {n c t : Nat} (hc : 0 < c) (hct : c ≤ t)
    (ht : t < g.prime) (ht32 : t < 2 ^ 32) (hok : checkCoprime t g.primeFactors = some true)
    (hf : t - c < n) : (findCandidate g n c).isSome = true := by
  induction n generalizing c with
  | zero => omega
  | succ n ih =>
    rw [findCandidate]
    cases hcheck : checkCoprime c g.primeFactors with
    | none =>
      have := checkCoprime_isSome hc g.primeFactors
      rw [hcheck] at this
      cases this
    | some b => cases b with
      | true => rfl
      | false =>
        have hne : c ≠ t := by
          rintro rfl
          rw [hok] at hcheck
          cases hcheck
        dsimp only
        rw [Nat.mod_eq_of_lt (by omega), if_neg (by omega)]
        exact ih (by omega) (by omega) (by omega)

/-- The search from the last residue starts again at one. -/
theorem findCandidate_last {g : XmCyclicGroup} {n : Nat} (hp : 3 < g.prime)
    (hp32 : g.prime < 2 ^ 32) (hlast : checkCoprime (g.prime - 1) g.primeFactors = some false)
    (hok : checkCoprime (g.prime - 2) g.primeFactors = some true) (hf : g.prime ≤ n) :
    (findCandidate g (n + 1) (g.prime - 1)).isSome = true := by
  rw [findCandidate, hlast]
  dsimp only
  rw [Nat.sub_add_cancel (by omega), Nat.mod_eq_of_lt hp32, if_pos le_rfl]
  exact findCandidate_isSome (by omega) (by omega) (by omega) (by omega) hok (by omega)

theorem findCandidate_small {g : GroupPtr} (hg : g.val.prime < 2 ^ 32) {c : Nat} (hc : 0 < c)
    (hcp : c < g.val.prime) : (findCandidate g.val (2 ^ 33) c).isSome = true := by
  have htab : ∀ g ∈ groups, g.prime < 2 ^ 32 → 3 < g.prime ∧
      checkCoprime (g.prime - 1) g.primeFactors = some false ∧
      checkCoprime (g.prime - 2) g.primeFactors = some true := by decide
  obtain ⟨h3, hlast, hok⟩ := htab g.val g.property hg
  by_cases hle : c ≤ g.val.prime - 2
  · exact findCandidate_isSome hc hle (by omega) (by omega) hok (by omega)
  · obtain rfl : c = g.val.prime - 1 := by omega
    exact findCandidate_last (n := 2 ^ 33 - 1) h3 hg hlast hok (by omega)

theorem findCandidate_large {c : Nat} (hc : 0 < c) (hc32 : c < 2 ^ 32) :
    findCandidate ⟨4294967311, 3, [2, 3, 5, 131, 364289]⟩ (2 ^ 33) c = none ↔ 2 ^ 32 - 2 ≤ c := by
  constructor
  · intro hnone
    by_contra hlt
    have := findCandidate_isSome (g := ⟨4294967311, 3, [2, 3, 5, 131, 364289]⟩) (n := 2 ^ 33)
      (t := 4294967293) hc (by omega) (by norm_num) (by norm_num) (by decide) (by omega)
    rw [hnone] at this
    cases this
  · intro hle
    have htrap : ∀ fuel, findCandidate ⟨4294967311, 3, [2, 3, 5, 131, 364289]⟩ (fuel + 2)
        4294967295 = none := fun fuel => rfl
    obtain rfl | rfl : c = 4294967294 ∨ c = 4294967295 := by omega
    · exact htrap (2 ^ 33 - 3)
    · exact htrap (2 ^ 33 - 2)

/-- `find_primroot` divides by zero exactly in the largest group, from the last two words on. -/
theorem findPrimroot_eq_none (g : GroupPtr) (aes : XmAesrand) :
    (findPrimroot g.val aes).1 = none ↔
      g.val.prime = 2 ^ 32 + 15 ∧ 2 ^ 32 - 2 ≤ (aes.stream aes.pos).val % 2 ^ 32 := by
  simp only [findPrimroot, xmAesrandGetword, Option.map_eq_none_iff]
  generalize (aes.stream aes.pos).val = w
  rcases groups_prime_eq_or_lt g with hp | hp
  · have htab : ∀ g ∈ groups, g.prime = 2 ^ 32 + 15 →
        g = ⟨4294967311, 3, [2, 3, 5, 131, 364289]⟩ := by decide
    obtain ⟨g, hg⟩ := g
    obtain rfl := htab g hg hp
    have hw : w % 2 ^ 32 % 4294967311 = w % 2 ^ 32 := Nat.mod_eq_of_lt (by omega)
    have hfirst : firstCandidate ⟨4294967311, 3, [2, 3, 5, 131, 364289]⟩ w =
        if w % 2 ^ 32 = 0 then 1 else w % 2 ^ 32 := by
      simp only [firstCandidate, hw]
      split <;> omega
    rw [hfirst, findCandidate_large (by split <;> omega) (by split <;> omega)]
    split <;> omega
  · refine iff_of_false (fun hnone => ?_) (fun h => by omega)
    have hone := (groups_sound g).prime.one_lt
    have hmod := Nat.mod_lt (w % 2 ^ 32) (groups_sound g).prime.pos
    have hsome := findCandidate_small hp (c := firstCandidate g.val w)
      (by simp only [firstCandidate]; split <;> omega)
      (by simp only [firstCandidate]; split <;> omega)
    rw [hnone] at hsome
    cases hsome

end Xmap.Target
