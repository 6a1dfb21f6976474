import Mathlib.Tactic

/-!
# The bytes of a word

A word of 32 bits is four bytes, from the highest one on.
-/

namespace Xmap.Lib

instance fourBytes : NeZero 4 := ⟨by decide⟩

instance sixteenBytes : NeZero 16 := ⟨by decide⟩

def byteOf (w : UInt32) (r : Fin 4) : UInt8 := UInt8.ofNat (w.toNat / 2 ^ (24 - 8 * r.val))

def wordOf (b : Fin 4 → UInt8) : UInt32 :=
  ((b 0).toUInt32 <<< 24) ^^^ ((b 1).toUInt32 <<< 16) ^^^ ((b 2).toUInt32 <<< 8) ^^^ (b 3).toUInt32

section
variable {v w : UInt32} {b : Fin 4 → UInt8} {r : Fin 4}

theorem byteOf_toNat (w : UInt32) (r : Fin 4) : (byteOf w r).toNat = w.toNat / 2 ^ (24 - 8 * r.val) % 2 ^ 8 := by
  simp [byteOf]

theorem byteOf_xor (v w : UInt32) (r : Fin 4) : byteOf (v ^^^ w) r = byteOf v r ^^^ byteOf w r := by
  apply UInt8.toNat_inj.mp
  rw [UInt8.toNat_xor, byteOf_toNat, byteOf_toNat, byteOf_toNat, UInt32.toNat_xor, Nat.xor_div_two_pow,
    Nat.xor_mod_two_pow]

theorem byteOf_and (v w : UInt32) (r : Fin 4) : byteOf (v &&& w) r = byteOf v r &&& byteOf w r := by
  apply UInt8.toNat_inj.mp
  rw [UInt8.toNat_and, byteOf_toNat, byteOf_toNat, byteOf_toNat, UInt32.toNat_and, Nat.and_div_two_pow,
    Nat.and_mod_two_pow]

/-- The bytes of a word determine it. -/
theorem eq_of_byteOf (h : ∀ r, byteOf v r = byteOf w r) : v = w := by
  have hbyte : ∀ r : Fin 4, v.toNat / 2 ^ (24 - 8 * r.val) % 2 ^ 8 = w.toNat / 2 ^ (24 - 8 * r.val) % 2 ^ 8 := by
    intro r
    rw [← byteOf_toNat, ← byteOf_toNat, h]
  have h0 := hbyte 0
  have h1 := hbyte 1
  have h2 := hbyte 2
  have h3 := hbyte 3
  have hv := v.toNat_lt
  have hw := w.toNat_lt
  apply UInt32.toNat_inj.mp
  simp at h0 h1 h2 h3
  omega

theorem byteOf_shiftLeft (x : UInt8) (r : Fin 4) :
    byteOf (x.toUInt32 <<< 24) r = (if r = 0 then x else 0) ∧
      byteOf (x.toUInt32 <<< 16) r = (if r = 1 then x else 0) ∧
        byteOf (x.toUInt32 <<< 8) r = (if r = 2 then x else 0) ∧
          byteOf x.toUInt32 r = if r = 3 then x else 0 := by
  have hx := x.toNat_lt
  fin_cases r <;> refine ⟨?_, ?_, ?_, ?_⟩ <;> apply UInt8.toNat_inj.mp <;> rw [byteOf_toNat] <;>
    simp [UInt32.toNat_shiftLeft, Nat.shiftLeft_eq] <;> omega

@[simp] theorem byteOf_wordOf (b : Fin 4 → UInt8) (r : Fin 4) : byteOf (wordOf b) r = b r := by
  simp only [wordOf, byteOf_xor, byteOf_shiftLeft]
  fin_cases r <;> simp

theorem wordOf_byteOf (w : UInt32) : wordOf (byteOf w) = w :=
  eq_of_byteOf fun r => byteOf_wordOf _ r

theorem shiftRight_24 (w : UInt32) : (w >>> 24).toNat = (byteOf w 0).toNat := by
  have hw := w.toNat_lt
  rw [byteOf_toNat]
  simp [UInt32.toNat_shiftRight, Nat.shiftRight_eq_div_pow]
  omega

theorem and_0xff_toNat (w : UInt32) : (w &&& 0xff).toNat = w.toNat % 2 ^ 8 := by
  rw [UInt32.toNat_and]
  exact Nat.and_two_pow_sub_one_eq_mod w.toNat 8

theorem byteOf_shiftRight_16 (w : UInt32) : byteOf (w >>> 16) 3 = byteOf w 1 := by
  apply UInt8.toNat_inj.mp
  rw [byteOf_toNat, byteOf_toNat]
  simp [UInt32.toNat_shiftRight, Nat.shiftRight_eq_div_pow]

theorem byteOf_shiftRight_8 (w : UInt32) : byteOf (w >>> 8) 3 = byteOf w 2 := by
  apply UInt8.toNat_inj.mp
  rw [byteOf_toNat, byteOf_toNat]
  simp [UInt32.toNat_shiftRight, Nat.shiftRight_eq_div_pow]

theorem and_0xff (w : UInt32) : (w &&& 0xff).toNat = (byteOf w 3).toNat := by
  rw [and_0xff_toNat, byteOf_toNat]
  simp

end

end Xmap.Lib
