import Mathlib.FieldTheory.Finite.Basic
import Mathlib.NumberTheory.LucasPrimality
import Mathlib.RingTheory.RootsOfUnity.PrimitiveRoots
import Mathlib.Tactic
import Mathlib.Tactic.ReduceModChar
import Xmap.Lib.Walk

/-!
# Walks by multiplication modulo a prime

Multiplication by a primitive root walks through all nonzero residues before it returns.
-/

namespace Xmap.Lib

/-- The step of the walk. -/
def mulMod (g p x : Nat) : Nat := x * g % p

/-- The powers of `g` are all nonzero residues. -/
abbrev IsGenerator (g p : Nat) : Prop := IsPrimitiveRoot (g : ZMod p) (p - 1)

/-- The test of Lucas over a list with all prime factors of `p - 1`. -/
theorem prime_and_isGenerator {p a : Nat} {qs : List Nat} (hp : 1 < p)
    (hqs : ∀ q, q.Prime → q ∣ p - 1 → q ∈ qs) (ha : (a : ZMod p) ^ (p - 1) = 1)
    (hne : ∀ q ∈ qs, (a : ZMod p) ^ ((p - 1) / q) ≠ 1) : p.Prime ∧ IsGenerator a p := by
  refine ⟨lucas_primality p a ha fun q hq hd => hne q (hqs q hq hd), ?_⟩
  refine IsPrimitiveRoot.iff_orderOf.mpr ?_
  exact orderOf_eq_of_pow_and_pow_div_prime (by omega) ha fun q hq hd => hne q (hqs q hq hd)

variable {p g : Nat}

theorem iterate_mulMod {x : Nat} (hx : x < p) (n : Nat) : (mulMod g p)^[n] x = x * g ^ n % p := by
  induction n with
  | zero => simp [Nat.mod_eq_of_lt hx]
  | succ n ih =>
    rw [Function.iterate_succ_apply', ih, mulMod, pow_succ, ← mul_assoc, Nat.mod_mul_mod]

theorem iterate_mulMod_pow (hp : 0 < p) (e n : Nat) :
    (mulMod g p)^[n] (g ^ e % p) = g ^ (e + n) % p := by
  rw [iterate_mulMod (Nat.mod_lt _ hp), Nat.mod_mul_mod, pow_add]

theorem pow_mod_eq_iff_cast {a b : Nat} :
    g ^ a % p = g ^ b % p ↔ (g : ZMod p) ^ a = (g : ZMod p) ^ b := by
  rw [← Nat.cast_pow, ← Nat.cast_pow, ZMod.natCast_eq_natCast_iff, Nat.ModEq]

namespace IsGenerator

variable [Fact p.Prime]

theorem order_pos : 0 < p - 1 := by
  have := (Fact.out : p.Prime).two_le
  omega

theorem pow_mod_eq_iff (hg : IsGenerator g p) {a b : Nat} :
    g ^ a % p = g ^ b % p ↔ a % (p - 1) = b % (p - 1) := by
  rw [pow_mod_eq_iff_cast, ← pow_mod_orderOf _ a, ← pow_mod_orderOf _ b, ← hg.eq_orderOf]
  constructor
  · exact fun h => hg.pow_inj (Nat.mod_lt _ order_pos) (Nat.mod_lt _ order_pos) h
  · exact fun h => by rw [h]

theorem cast_ne_zero {y : Nat} (h0 : 0 < y) (hy : y < p) : (y : ZMod p) ≠ 0 := by
  rw [Ne, ZMod.natCast_eq_zero_iff]
  exact Nat.not_dvd_of_pos_of_lt h0 hy

theorem exists_pow (hg : IsGenerator g p) {y : Nat} (h0 : 0 < y) (hy : y < p) :
    ∃ n < p - 1, g ^ n % p = y := by
  have : NeZero (p - 1) := ⟨order_pos.ne'⟩
  obtain ⟨n, hn, he⟩ := hg.eq_pow_of_pow_eq_one (ZMod.pow_card_sub_one_eq_one (cast_ne_zero h0 hy))
  refine ⟨n, hn, ?_⟩
  rwa [← Nat.cast_pow, ZMod.natCast_eq_natCast_iff, Nat.ModEq, Nat.mod_eq_of_lt hy] at he

theorem pow_mod_pos (hg : IsGenerator g p) (n : Nat) : 0 < g ^ n % p := by
  have hg0 : (g : ZMod p) ≠ 0 := hg.ne_zero order_pos.ne'
  rw [Nat.pos_iff_ne_zero]
  intro hz
  have := (ZMod.natCast_eq_zero_iff (g ^ n) p).mpr (Nat.dvd_of_mod_eq_zero hz)
  rw [Nat.cast_pow] at this
  exact pow_ne_zero n hg0 this

theorem of_pow {y k : Nat} (hy : IsGenerator y p) (h0 : 0 < g) (hg : g < p)
    (he : g ^ k % p = y % p) : IsGenerator g p := by
  have hcast : (g : ZMod p) ^ k = y := by
    rw [← Nat.cast_pow, ZMod.natCast_eq_natCast_iff]
    exact he
  have hdvd : p - 1 ∣ orderOf (g : ZMod p) := by
    rw [hy.eq_orderOf, ← hcast]
    exact orderOf_pow_dvd k
  refine IsPrimitiveRoot.iff_orderOf.mpr (Nat.dvd_antisymm ?_ hdvd)
  exact orderOf_dvd_of_pow_eq_one (ZMod.pow_card_sub_one_eq_one (cast_ne_zero h0 hg))

/-- The walk from a power returns to it after all nonzero residues, each met once. -/
theorem firstHit (hg : IsGenerator g p) {a b m : Nat} (hm : 0 < m) (hle : m ≤ p - 1)
    (hab : (a + m) % (p - 1) = b % (p - 1)) :
    FirstHit (mulMod g p) (· = g ^ b % p) (g ^ a % p) m where
  pos := hm
  hit := by
    rw [iterate_mulMod_pow (Fact.out : p.Prime).pos]
    exact hg.pow_mod_eq_iff.mpr hab
  first j hj hjm he := by
    rw [iterate_mulMod_pow (Fact.out : p.Prime).pos, hg.pow_mod_eq_iff, ← hab] at he
    have hd : p - 1 ∣ m - j := by
      have := (Nat.modEq_iff_dvd' (show a + j ≤ a + m by omega)).mp he
      rwa [show a + m - (a + j) = m - j by omega] at this
    have := Nat.le_of_dvd (by omega) hd
    omega

theorem mem_walk_iff (hg : IsGenerator g p) (a : Nat) {y : Nat} :
    y ∈ walk (mulMod g p) (g ^ a % p) (p - 1) ↔ 0 < y ∧ y < p := by
  have hp := (Fact.out : p.Prime).pos
  rw [mem_walk]
  constructor
  · rintro ⟨j, _, rfl⟩
    rw [iterate_mulMod_pow hp]
    exact ⟨hg.pow_mod_pos _, Nat.mod_lt _ hp⟩
  · rintro ⟨h0, hy⟩
    obtain ⟨n, hn, rfl⟩ := hg.exists_pow h0 hy
    -- the exponent `n` is met `n - a` steps after `a`, modulo the order
    have hq : 0 < p - 1 := order_pos
    refine ⟨(n + (p - 1) - a % (p - 1)) % (p - 1), Nat.mod_lt _ hq, ?_⟩
    rw [iterate_mulMod_pow hp, hg.pow_mod_eq_iff, Nat.add_mod_mod, ← Nat.mod_add_mod]
    have := Nat.mod_lt a hq
    rw [show a % (p - 1) + (n + (p - 1) - a % (p - 1)) = n + (p - 1) by omega, Nat.add_mod_right]

end IsGenerator

end Xmap.Lib
