import Xmap.Target.Lemmas.Ranges

/-!
# Cycles of the largest group that miss residues

In the largest group a product of a residue and the generator can exceed a word, and a generator of 33
bits is stored cut to its low word. In both cases a walk that returns to its start misses two small
residues.
-/

namespace Xmap.Target

open Xmap.Lib

/-- The largest modulus. -/
abbrev prime32 : Nat := 4294967311

theorem prime32_prime : prime32.Prime := sound_4294967311.prime

instance : Fact prime32.Prime := ⟨prime32_prime⟩

theorem isGenerator_three : IsGenerator 3 prime32 := sound_4294967311.isGenerator

theorem isGenerator_thirteen : IsGenerator 13 4294967311 := by
  refine (prime_and_isGenerator (by decide) sound_4294967311.factors ?_ ?_).2
  · show (13 : ZMod 4294967311) ^ 4294967310 = 1
    reduce_mod_char
  · show ∀ q ∈ [2, 3, 5, 131, 364289], (13 : ZMod 4294967311) ^ (4294967310 / q) ≠ 1
    simp only [List.forall_mem_cons, List.not_mem_nil, false_implies, implies_true, and_true,
      Nat.reduceDiv]
    refine ⟨?_, ?_, ?_, ?_, ?_⟩ <;> reduce_mod_char <;> decide

section
variable {g : Nat}

def step32 (g x : Nat) : Nat := x * g % 2 ^ 64 % prime32

/-- No product above a word has the remainder `y`. -/
def NoWrapTo (g y : Nat) : Prop :=
  ∀ k < 15, 2 ^ 64 ≤ (2 ^ 32 + k) * g → step32 g (2 ^ 32 + k) ≠ y

instance (g y : Nat) : Decidable (NoWrapTo g y) :=
  inferInstanceAs (Decidable (∀ k < 15, _ → _))

theorem mul_mod_inj (h0 : 0 < g) (hg : g < prime32) {z w : Nat} (hz : z < prime32) (hw : w < prime32)
    (h : z * g % prime32 = w * g % prime32) : z = w := by
  have hcop : Nat.Coprime prime32 g := Nat.coprime_of_lt_prime h0.ne' hg prime32_prime
  have := Nat.ModEq.cancel_right_of_coprime (m := prime32) hcop h
  rwa [Nat.ModEq, Nat.mod_eq_of_lt hz, Nat.mod_eq_of_lt hw] at this

/-- An element whose image is reached without wrapping only comes from the residue that would give it
exactly. -/
theorem eq_of_step32_eq (h0 : 0 < g) (hg : g < 2 ^ 32) {w z y : Nat} (hw : w < prime32)
    (hz : z < prime32) (hwy : w * g % prime32 = y) (hwrap : NoWrapTo g y) (h : step32 g z = y) :
    z = w ∧ z * g < 2 ^ 64 := by
  have hfit : z * g < 2 ^ 64 := by
    by_contra hge
    have hz32 : 2 ^ 32 ≤ z := by
      by_contra hlt
      have : z * g ≤ 2 ^ 32 * g := Nat.mul_le_mul_right _ (by omega)
      omega
    obtain ⟨k, rfl⟩ : ∃ k, z = 2 ^ 32 + k := ⟨z - 2 ^ 32, by omega⟩
    exact hwrap k (by unfold prime32 at hz; omega) (by omega) h
  refine ⟨mul_mod_inj h0 (by unfold prime32; omega) hz hw ?_, hfit⟩
  rw [hwy, ← h, step32, Nat.mod_eq_of_lt hfit]

/-- The elements of a walk that returns. -/
structure Returning (g : Nat) (V : List Nat) : Prop where
  lt : ∀ y ∈ V, y < prime32
  pred : ∀ y ∈ V, ∃ z ∈ V, step32 g z = y

section
variable {V : List Nat} (h0 : 0 < g) (hg : g < 2 ^ 32) (hV : Returning g V)
include h0 hg hV

/-- A residue that only a wrapped product would give is missed. -/
theorem Returning.not_mem_of_wrap {w y : Nat} (hw : w < prime32) (hwy : w * g % prime32 = y)
    (hwrap : NoWrapTo g y) (hov : 2 ^ 64 ≤ w * g) : y ∉ V := by
  intro hy
  obtain ⟨z, hz, hstep⟩ := hV.pred y hy
  obtain ⟨rfl, hfit⟩ := eq_of_step32_eq h0 hg hw (hV.lt z hz) hwy hwrap hstep
  omega

theorem Returning.not_mem_of_not_mem {w y : Nat} (hw : w < prime32) (hwy : w * g % prime32 = y)
    (hwrap : NoWrapTo g y) (hmiss : w ∉ V) : y ∉ V := by
  intro hy
  obtain ⟨z, hz, hstep⟩ := hV.pred y hy
  obtain ⟨rfl, _⟩ := eq_of_step32_eq h0 hg hw (hV.lt z hz) hwy hwrap hstep
  exact hmiss hz

end

/-- Two small residues that a list misses. -/
def MissesTwo (V : List Nat) : Prop :=
  ∃ y z, y ≠ z ∧ (0 < y ∧ y < 2 ^ 16) ∧ (0 < z ∧ z < 2 ^ 16) ∧ y ∉ V ∧ z ∉ V

/-- With `g = 2^32 - b` and `b < 13` the two largest residues wrap, and with `b = 13` the largest one
does. -/
theorem Returning.missesTwo_of_overflow {V : List Nat} (hg : g < 2 ^ 32)
    (hov : 2 ^ 64 ≤ (prime32 - 1) * g) (hV : Returning g V) : MissesTwo V := by
  rw [show prime32 - 1 = 4294967310 from rfl] at hov
  have h0 : 0 < g := by omega
  obtain ⟨b, hb, rfl⟩ : ∃ b < 13, g = 2 ^ 32 - 1 - b := ⟨2 ^ 32 - 1 - g, by omega, by omega⟩
  by_cases h12 : b < 12
  · have htab : ∀ b < 12,
        16 + b ≠ 2 * (16 + b) ∧
        (2 ^ 32 + 14) * (2 ^ 32 - 1 - b) % prime32 = 16 + b ∧
        (2 ^ 32 + 13) * (2 ^ 32 - 1 - b) % prime32 = 2 * (16 + b) ∧
        2 ^ 64 ≤ (2 ^ 32 + 13) * (2 ^ 32 - 1 - b) ∧
        NoWrapTo (2 ^ 32 - 1 - b) (16 + b) ∧
        NoWrapTo (2 ^ 32 - 1 - b) (2 * (16 + b)) := by decide +kernel
    obtain ⟨hne, hy, hz, hle, hwy, hwz⟩ := htab b h12
    refine ⟨_, _, hne, ⟨by omega, by omega⟩, ⟨by omega, by omega⟩, ?_, ?_⟩
    · exact hV.not_mem_of_wrap h0 hg (by decide) hy hwy (by omega)
    · exact hV.not_mem_of_wrap h0 hg (by decide) hz hwz hle
  · obtain rfl : b = 12 := by omega
    -- 28 is missed, so are its multiples by the powers of the generator
    have h28 : 28 ∉ V := hV.not_mem_of_wrap (w := 2 ^ 32 + 14) h0 hg (by decide) (by decide)
      (by decide +kernel) (by decide)
    have hmid : 4294966527 ∉ V :=
      hV.not_mem_of_not_mem h0 hg (by decide) (by decide) (by decide +kernel) h28
    have hlast : 21952 ∉ V :=
      hV.not_mem_of_not_mem h0 hg (by decide) (by decide) (by decide +kernel) hmid
    exact ⟨28, 21952, by decide, by decide, by decide, h28, hlast⟩

end

/-! ## Cycles -/

section
variable {c : XmCycle} {n T : Nat}

theorem fits_small (hp : c.prime = prime32) (hg : c.generator < 15) : c.Fits := by
  unfold XmCycle.Fits
  rw [hp]
  have : (prime32 - 1) * c.generator ≤ (prime32 - 1) * 15 := Nat.mul_le_mul_left _ (by omega)
  exact lt_of_le_of_lt this (by decide)

/-- A walk over the powers of no generator misses the generators. -/
theorem not_mem_walk_of_isGenerator {y : Nat} (hf : c.Fits) (h0 : 0 < c.generator)
    (hlt : c.generator < c.prime) (hng : ¬ IsGenerator c.generator c.prime)
    (hy : IsGenerator y c.prime) (hyp : y < c.prime) : y ∉ walk c.step (c.start n 0) T := by
  intro hmem
  obtain ⟨j, _, hj⟩ := mem_walk.mp hmem
  rw [XmCycle.iterate_step_eq hf (c.start_lt n 0), XmCycle.start,
    iterate_mulMod_pow c.isPrime.pos] at hj
  exact hng (hy.of_pow h0 hlt (by rw [hj, Nat.mod_eq_of_lt hyp]))

/-- A cycle as it is drawn that has no generator or overflows misses two small residues. -/
theorem missesTwo_of_bad (h0 : 0 < c.generator)
    (hcase : IsGenerator c.generator c.prime ∨ c.prime = prime32 ∧ c.generator < 15)
    (hbad : ¬ (IsGenerator c.generator c.prime ∧ c.Fits))
    (hT : c.step^[T] (c.start n 0) = c.start n 0) :
    c.prime = prime32 ∧ MissesTwo (walk c.step (c.start n 0) T) := by
  have hp : c.prime = prime32 := by
    rcases groups_prime_eq_or_lt c.group with hp | hp
    · exact hp
    · rcases hcase with hg | ⟨hp', _⟩
      · exact absurd ⟨hg, XmCycle.fits_of_prime_lt hp⟩ hbad
      · exact hp'
  refine ⟨hp, ?_⟩
  by_cases hg : IsGenerator c.generator c.prime
  · have hov : 2 ^ 64 ≤ (prime32 - 1) * c.generator := by
      have := fun hf => hbad ⟨hg, hf⟩
      rw [XmCycle.Fits, hp] at this
      exact Nat.le_of_not_lt this
    have hV : Returning c.generator (walk c.step (c.start n 0) T) := by
      refine ⟨fun y hy => ?_, fun y hy => ?_⟩
      · obtain ⟨j, _, rfl⟩ := mem_walk.mp hy
        rw [← hp]
        exact XmCycle.iterate_step_lt (c.start_lt n 0) j
      · obtain ⟨z, hz, hstep⟩ := exists_pred_of_return hT hy
        refine ⟨z, hz, ?_⟩
        rw [← hstep, XmCycle.step, hp]
        rfl
    exact hV.missesTwo_of_overflow c.generator_lt hov
  · obtain ⟨_, hsmall⟩ := hcase.resolve_left hg
    have hf := fits_small hp hsmall
    have hmiss : ∀ y, IsGenerator y prime32 → y < prime32 → y ∉ walk c.step (c.start n 0) T := by
      intro y hy hyp
      rw [← hp] at hy hyp
      exact not_mem_walk_of_isGenerator hf h0 (by rw [hp]; unfold prime32; omega) hg hy hyp
    exact ⟨3, 13, by decide, by decide, by decide, hmiss 3 isGenerator_three (by decide),
      hmiss 13 isGenerator_thirteen (by decide)⟩

end

end Xmap.Target
