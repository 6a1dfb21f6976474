import Mathlib.Data.Nat.Bitwise
import Mathlib.Tactic

/-!
# Paged bitmaps (`xm_pbm`)

A bitmap of 2^32 bits has 2^16 pages of 2^16 bits. A page is allocated when a bit in it is first set.
-/

namespace Xmap.Task

/-- The allocated pages; a byte of a page is found at its index. -/
abbrev Pbm := Nat → Option (Nat → UInt8)

def PAGE_SIZE_IN_BITS : Nat := 0x10000
def PAGE_SIZE_IN_BYTES : Nat := PAGE_SIZE_IN_BITS / 8
def NUM_PAGES : Nat := 0x10000
def PAGE_MASK : UInt32 := 0xFFFF

def xmPbmInit : Pbm := fun _ => none

def bmCheck (bm : Nat → UInt8) (v : UInt16) : Bool :=
  let pageIdx : UInt16 := v >>> 3
  let bitIdx : UInt8 := (v &&& 0x07).toUInt8
  bm pageIdx.toNat &&& (1 <<< bitIdx) ≠ 0

def bmSet (bm : Nat → UInt8) (v : UInt16) : Nat → UInt8 :=
  let pageIdx : UInt16 := v >>> 3
  let bitIdx : UInt8 := (v &&& 0x07).toUInt8
  fun i => if i = pageIdx.toNat then bm i ||| (1 <<< bitIdx) else bm i

def xmPbmCheck (b : Pbm) (v : UInt32) : Bool :=
  let top : UInt32 := v >>> 16
  let bottom : UInt32 := v &&& PAGE_MASK
  match b top.toNat with
  | none => false
  | some bm => bmCheck bm bottom.toUInt16

def xmPbmSet (b : Pbm) (v : UInt32) : Pbm :=
  let top : UInt16 := (v >>> 16).toUInt16
  let bottom : UInt16 := (v &&& PAGE_MASK).toUInt16
  fun i => if i = top.toNat then some (bmSet ((b i).getD fun _ => 0) bottom) else b i

/-- The bits of `pages` pages of `bytes` bytes, each as its page, its byte and its place in the byte. -/
def bitsOfPages (pages bytes : Nat) : Finset (Nat × Nat × Nat) :=
  Finset.range pages ×ˢ Finset.range bytes ×ˢ Finset.range 8

@[irreducible] def bitPlaces : Finset (Nat × Nat × Nat) := bitsOfPages NUM_PAGES PAGE_SIZE_IN_BYTES

/-- The bits that are set. -/
def Pbm.bits (b : Pbm) : Finset (Nat × Nat × Nat) :=
  bitPlaces.filter fun k => ∃ bm ∈ b k.1, (bm k.2.1).toNat.testBit k.2.2

/-! ## Bits -/

/-- The page, the byte and the bit of a value. -/
def bitOf (v : UInt32) : Nat × Nat × Nat :=
  (v.toNat / 65536, v.toNat % 65536 / 8, v.toNat % 8)

theorem bitOf_injective : Function.Injective bitOf := by
  intro v w h
  obtain ⟨htop, hbyte, hbit⟩ : v.toNat / 65536 = w.toNat / 65536 ∧
      v.toNat % 65536 / 8 = w.toNat % 65536 / 8 ∧ v.toNat % 8 = w.toNat % 8 := by
    simpa [bitOf] using h
  exact UInt32.toNat_inj.mp (by omega)

theorem mem_bitsOfPages {pages bytes : Nat} {k : Nat × Nat × Nat} :
    k ∈ bitsOfPages pages bytes ↔ k.1 < pages ∧ k.2.1 < bytes ∧ k.2.2 < 8 := by
  simp only [bitsOfPages, Finset.mem_product, Finset.mem_range]

theorem mem_bitPlaces {k : Nat × Nat × Nat} :
    k ∈ bitPlaces ↔ k.1 < NUM_PAGES ∧ k.2.1 < PAGE_SIZE_IN_BYTES ∧ k.2.2 < 8 := by
  unfold bitPlaces
  exact mem_bitsOfPages

theorem bitOf_mem (v : UInt32) : bitOf v ∈ bitPlaces := by
  have := v.toNat_lt
  rw [mem_bitPlaces]
  simp only [bitOf, NUM_PAGES, PAGE_SIZE_IN_BYTES, PAGE_SIZE_IN_BITS]
  omega

section
variable {v w : UInt32} {x : UInt8} {i j : Nat}

theorem one_shiftLeft_toNat (hi : i < 8) : (1 <<< UInt8.ofNat i : UInt8).toNat = 2 ^ i := by
  have hpow : 2 ^ i < 2 ^ 8 := Nat.pow_lt_pow_right (by omega) hi
  rw [UInt8.toNat_shiftLeft, UInt8.toNat_ofNat', UInt8.toNat_one, Nat.shiftLeft_eq, Nat.one_mul,
    Nat.mod_eq_of_lt (show i < 2 ^ 8 by omega), Nat.mod_eq_of_lt hi, Nat.mod_eq_of_lt hpow]

theorem and_one_shiftLeft_ne_zero (hi : i < 8) :
    x &&& (1 <<< UInt8.ofNat i) ≠ 0 ↔ x.toNat.testBit i := by
  rw [Ne, ← UInt8.toNat_inj, UInt8.toNat_and, one_shiftLeft_toNat hi, Nat.and_two_pow]
  cases x.toNat.testBit i <;> simp

theorem testBit_or_one_shiftLeft (hi : i < 8) :
    (x ||| (1 <<< UInt8.ofNat i)).toNat.testBit j = (decide (i = j) || x.toNat.testBit j) := by
  rw [UInt8.toNat_or, Nat.testBit_or, one_shiftLeft_toNat hi, Nat.testBit_two_pow, Bool.or_comm]

theorem top_toNat (v : UInt32) : (v >>> 16).toNat = v.toNat / 65536 := by
  rw [UInt32.toNat_shiftRight, Nat.shiftRight_eq_div_pow]
  rfl

theorem bottom_toNat (v : UInt32) : (v &&& PAGE_MASK).toUInt16.toNat = v.toNat % 65536 := by
  rw [UInt32.toNat_toUInt16, UInt32.toNat_and, show PAGE_MASK.toNat = 2 ^ 16 - 1 from rfl,
    Nat.and_two_pow_sub_one_eq_mod]
  omega

theorem pageIdx_toNat (v : UInt16) : (v >>> 3).toNat = v.toNat / 8 := by
  rw [UInt16.toNat_shiftRight, Nat.shiftRight_eq_div_pow]
  rfl

theorem bitIdx_eq (v : UInt16) : (v &&& 0x07).toUInt8 = UInt8.ofNat (v.toNat % 8) := by
  refine UInt8.toNat_inj.mp ?_
  rw [UInt16.toNat_toUInt8, UInt16.toNat_and, UInt8.toNat_ofNat',
    show (0x07 : UInt16).toNat = 2 ^ 3 - 1 from rfl, Nat.and_two_pow_sub_one_eq_mod]

end

/-! ## What is set -/

section
variable {b : Pbm} {v w : UInt32} {k : Nat × Nat × Nat}

theorem Pbm.mem_bits (hk : k ∈ bitPlaces) :
    k ∈ b.bits ↔ ∃ bm ∈ b k.1, (bm k.2.1).toNat.testBit k.2.2 :=
  Finset.mem_filter.trans (and_iff_right hk)

theorem bmCheck_iff {bm : Nat → UInt8} {v : UInt16} :
    bmCheck bm v = true ↔ (bm (v.toNat / 8)).toNat.testBit (v.toNat % 8) := by
  simp only [bmCheck, decide_eq_true_iff, pageIdx_toNat, bitIdx_eq]
  exact and_one_shiftLeft_ne_zero (Nat.mod_lt _ (by omega))

theorem xmPbmCheck_iff : xmPbmCheck b v = true ↔ bitOf v ∈ b.bits := by
  have hbit : v.toNat % 65536 % 8 = v.toNat % 8 := by omega
  rw [Pbm.mem_bits (bitOf_mem v)]
  simp only [xmPbmCheck, top_toNat, bitOf]
  cases b (v.toNat / 65536) with
  | none => simp
  | some bm =>
    simp only [Option.mem_def, Option.some.injEq, exists_eq_left', bmCheck_iff, bottom_toNat, hbit]

theorem xmPbmInit_bits : xmPbmInit.bits = ∅ := by
  refine Finset.filter_eq_empty_iff.mpr fun k _ => ?_
  rintro ⟨bm, hbm, _⟩
  cases hbm

theorem bmSet_testBit {bm : Nat → UInt8} {v : UInt16} {byte bit : Nat} :
    (bmSet bm v byte).toNat.testBit bit =
      (decide (byte = v.toNat / 8 ∧ bit = v.toNat % 8) || (bm byte).toNat.testBit bit) := by
  simp only [bmSet, pageIdx_toNat, bitIdx_eq]
  by_cases hbyte : byte = v.toNat / 8
  · simp only [hbyte, if_true, true_and, eq_comm (a := bit)]
    exact testBit_or_one_shiftLeft (Nat.mod_lt _ (by omega))
  · simp [hbyte]

theorem xmPbmSet_bits : (xmPbmSet b v).bits = insert (bitOf v) b.bits := by
  have htop : ((v >>> 16).toUInt16).toNat = v.toNat / 65536 := by
    rw [UInt32.toNat_toUInt16, top_toNat]
    have := v.toNat_lt
    omega
  have hbit : v.toNat % 65536 % 8 = v.toNat % 8 := by omega
  ext k
  rw [Finset.mem_insert]
  by_cases hk : k ∈ bitPlaces
  · rw [Pbm.mem_bits hk, Pbm.mem_bits hk]
    obtain ⟨page, byte, bit⟩ := k
    simp only [xmPbmSet, htop, bitOf, Prod.mk.injEq]
    by_cases hpage : page = v.toNat / 65536
    · subst hpage
      simp only [if_true, Option.mem_def, Option.some.injEq, exists_eq_left', bmSet_testBit,
        bottom_toNat, hbit, true_and, Bool.or_eq_true, decide_eq_true_iff]
      cases b (v.toNat / 65536) with
      | none => simp
      | some bm => simp
    · simp [hpage]
  · have hnot : ∀ c : Pbm, k ∉ c.bits := fun c hc => hk (Finset.mem_filter.mp hc).1
    refine iff_of_false (hnot _) (not_or.mpr ⟨fun he => hk ?_, hnot b⟩)
    rw [he]
    exact bitOf_mem v

theorem xmPbmCheck_set : xmPbmCheck (xmPbmSet b v) w = true ↔ w = v ∨ xmPbmCheck b w = true := by
  rw [xmPbmCheck_iff, xmPbmCheck_iff, xmPbmSet_bits, Finset.mem_insert, bitOf_injective.eq_iff]

end

end Xmap.Task
