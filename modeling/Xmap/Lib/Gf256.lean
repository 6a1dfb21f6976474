import Mathlib.Tactic

/-!
# The field of 256 elements

A byte is a polynomial over the field of two elements, modulo `x^8 + x^4 + x^3 + x + 1`. Sums are exclusive ors.
The operations are on numbers below 256, where they compute fast.
-/

namespace Xmap.Lib

/-- The product by `x`. -/
def xtime (a : Nat) : Nat := 2 * a ^^^ a / 128 * 0x11b

/-- The product by a number of at most `n` bits, from the lowest one on. -/
def gmulBits : Nat → Nat → Nat → Nat
  | 0, _, _ => 0
  | _, 0, _ => 0
  | n + 1, a, b => a % 2 * b ^^^ gmulBits n (a / 2) (xtime b)

def gmul (a b : Nat) : Nat := gmulBits 8 a b

def gsq (a : Nat) : Nat := gmul a a

/-- The power of exponent 254, which is the inverse of what is not zero. -/
def ginv (a : Nat) : Nat :=
  let a2 := gsq a
  let a4 := gsq a2
  let a8 := gsq a4
  let a16 := gsq a8
  let a32 := gsq a16
  let a64 := gsq a32
  let a128 := gsq a64
  gmul a128 (gmul a64 (gmul a32 (gmul a16 (gmul a8 (gmul a4 a2)))))

section
variable {a b c n : Nat}

theorem xor_lt_256 (ha : a < 256) (hb : b < 256) : a ^^^ b < 256 := Nat.xor_lt_two_pow (n := 8) ha hb

theorem xtime_lt (h : a < 256) : xtime a < 256 := by
  apply (Nat.div_eq_zero_iff_lt (Nat.two_pow_pos 8)).mp
  rcases Nat.lt_or_ge a 128 with hlow | hhigh
  · have hbit : a / 128 = 0 := Nat.div_eq_of_lt hlow
    rw [xtime, hbit, Nat.zero_mul, Nat.xor_zero]
    omega
  · have hbit : a / 128 = 1 := by omega
    have hdouble : 2 * a / 2 ^ 8 = 1 := by omega
    rw [xtime, hbit, Nat.one_mul, Nat.xor_div_two_pow, hdouble]
    rfl

theorem xor_mul_of_le_one (ha : a ≤ 1) (hb : b ≤ 1) : (a ^^^ b) * c = a * c ^^^ b * c := by
  rcases Nat.le_one_iff_eq_zero_or_eq_one.mp ha with rfl | rfl <;>
    rcases Nat.le_one_iff_eq_zero_or_eq_one.mp hb with rfl | rfl <;> simp

theorem xtime_xor (ha : a < 256) (hb : b < 256) : xtime (a ^^^ b) = xtime a ^^^ xtime b := by
  have hdouble : 2 * (a ^^^ b) = 2 * a ^^^ 2 * b := by
    simpa only [Nat.shiftLeft_eq, pow_one, Nat.mul_comm _ 2] using
      Nat.shiftLeft_xor_distrib (i := 1) (a := a) (b := b)
  have hhigh : (a ^^^ b) / 128 = a / 128 ^^^ b / 128 := Nat.xor_div_two_pow (n := 7)
  have hmul : (a / 128 ^^^ b / 128) * 0x11b = a / 128 * 0x11b ^^^ b / 128 * 0x11b :=
    xor_mul_of_le_one (by omega) (by omega)
  simp only [xtime, hdouble, hhigh, hmul]
  ac_rfl

theorem mod_two_mul_lt (hb : b < 256) : a % 2 * b < 256 := by
  rcases Nat.mod_two_eq_zero_or_one a with h | h <;> simp [h, hb]

theorem gmulBits_succ (n a b : Nat) : gmulBits (n + 1) a b = a % 2 * b ^^^ gmulBits n (a / 2) (xtime b) := by
  cases a with
  | zero =>
    have hzero : ∀ n b, gmulBits n 0 b = 0 := by
      intro n b
      cases n <;> rfl
    simp [hzero]
  | succ a => rfl

theorem gmulBits_lt (hb : b < 256) (n a : Nat) : gmulBits n a b < 256 := by
  induction n generalizing a b with
  | zero => simp [gmulBits]
  | succ n ih =>
    rw [gmulBits_succ]
    exact xor_lt_256 (mod_two_mul_lt hb) (ih (xtime_lt hb) _)

theorem gmul_lt (hb : b < 256) : gmul a b < 256 := gmulBits_lt hb 8 a

theorem gmulBits_xor (hb : b < 256) (hc : c < 256) (n a : Nat) :
    gmulBits n a (b ^^^ c) = gmulBits n a b ^^^ gmulBits n a c := by
  induction n generalizing a b c with
  | zero => simp [gmulBits]
  | succ n ih =>
    have hbit : a % 2 * (b ^^^ c) = a % 2 * b ^^^ a % 2 * c := by
      rcases Nat.mod_two_eq_zero_or_one a with h | h <;> simp [h]
    simp only [gmulBits_succ, xtime_xor hb hc, ih (xtime_lt hb) (xtime_lt hc), hbit]
    ac_rfl

/-- Products distribute over sums. -/
theorem gmul_xor (hb : b < 256) (hc : c < 256) : gmul a (b ^^^ c) = gmul a b ^^^ gmul a c :=
  gmulBits_xor hb hc 8 a

/-! ## Additive maps -/

/-- Sums of bytes go to sums. -/
def XorAdditive (f : Nat → Nat) : Prop := ∀ a b, a < 256 → b < 256 → f (a ^^^ b) = f a ^^^ f b

variable {f g : Nat → Nat}

theorem XorAdditive.map_zero (hf : XorAdditive f) : f 0 = 0 := by
  have h := hf 0 0 (by decide) (by decide)
  rwa [Nat.xor_self, Nat.xor_self] at h

theorem XorAdditive.xor (hf : XorAdditive f) (hg : XorAdditive g) : XorAdditive fun a => f a ^^^ g a := by
  intro a b ha hb
  simp only [hf a b ha hb, hg a b ha hb]
  ac_rfl

theorem xorAdditive_gmul_gmul (c d : Nat) : XorAdditive fun a => gmul c (gmul d a) := by
  intro a b ha hb
  simp only [gmul_xor ha hb, gmul_xor (gmul_lt ha) (gmul_lt hb)]

/-- Additive maps that agree on the powers of two agree on all bytes. -/
theorem XorAdditive.eq_of_two_pow (hf : XorAdditive f) (hg : XorAdditive g)
    (h : ∀ i : Fin 8, f (2 ^ i.val) = g (2 ^ i.val)) (ha : a < 256) : f a = g a := by
  have hall : ∀ k ≤ 8, ∀ b < 2 ^ k, f b = g b := by
    intro k
    induction k with
    | zero =>
      intro _ b hb
      obtain rfl : b = 0 := by omega
      rw [hf.map_zero, hg.map_zero]
    | succ k ih =>
      intro hk b hb
      rcases Nat.lt_or_ge b (2 ^ k) with hlt | hge
      · exact ih (by omega) b hlt
      · have hpow : 2 ^ k < 2 ^ 8 := Nat.pow_lt_pow_right (by decide) hk
        have hhigh : b / 2 ^ k = 1 := Nat.div_eq_of_lt_le (by omega) (by omega)
        have hrest : 2 ^ k ^^^ b < 2 ^ k := by
          apply (Nat.div_eq_zero_iff_lt (Nat.two_pow_pos k)).mp
          rw [Nat.xor_div_two_pow, Nat.div_self (Nat.two_pow_pos k), hhigh, Nat.xor_self]
        have hsplit : b = 2 ^ k ^^^ (2 ^ k ^^^ b) := by rw [← Nat.xor_assoc, Nat.xor_self, Nat.zero_xor]
        have hsmall := hrest.trans hpow
        rw [hsplit, hf _ _ hpow hsmall, hg _ _ hpow hsmall, h ⟨k, hk⟩, ih (by omega) _ hrest]
  exact hall 8 le_rfl a ha

end

end Xmap.Lib
