import Xmap.Cipher.Lemmas.Tables

/-!
# The rounds on words

A round by the tables is a round by its steps, column by column and byte by byte.
-/

namespace Xmap.Cipher

open Xmap.Lib

/-- The bytes of the words. -/
def stateOf (s : Words) : State := fun c r => byteOf (s.word c) r

/-- The round key that starts at an offset of a schedule. -/
def keyState (rk : List UInt32) (off : Nat) : State := fun c r => byteOf (rk.getD (off + c.val) 0) r

/-! ## The steps -/

section
variable (s t k : State)

theorem mulByte_xor (c : Nat) (x y : UInt8) : mulByte c (x ^^^ y) = mulByte c x ^^^ mulByte c y := by
  have hx : x.toNat < 256 := x.toNat_lt
  have hy : y.toNat < 256 := y.toNat_lt
  apply UInt8.toNat_inj.mp
  simp only [mulByte, UInt8.toNat_xor, UInt8.toNat_ofNat', gmul_xor hx hy, Nat.xor_mod_two_pow]

/-- The product of a row of the one matrix and a column of the other. -/
def rowTimesColumn (r j : Fin 4) (x : UInt8) : UInt8 :=
  mulByte (invMixCoef (0 - r)) (mulByte (mixCoef (j - 0)) x) ^^^
    mulByte (invMixCoef (1 - r)) (mulByte (mixCoef (j - 1)) x) ^^^
    mulByte (invMixCoef (2 - r)) (mulByte (mixCoef (j - 2)) x) ^^^
    mulByte (invMixCoef (3 - r)) (mulByte (mixCoef (j - 3)) x)

theorem mulByte_mulByte (c d : Nat) (x : UInt8) :
    mulByte c (mulByte d x) = UInt8.ofNat (gmul c (gmul d x.toNat)) := by
  have hd : gmul d x.toNat < 2 ^ 8 := gmul_lt x.toNat_lt
  rw [mulByte, mulByte, UInt8.toNat_ofNat', Nat.mod_eq_of_lt hd]

theorem rowTimesColumn_eq (r j : Fin 4) (x : UInt8) : rowTimesColumn r j x = if r = j then x else 0 := by
  have hx : x.toNat < 256 := x.toNat_lt
  have hadd := (((xorAdditive_gmul_gmul (invMixCoef (0 - r)) (mixCoef (j - 0))).xor
    (xorAdditive_gmul_gmul (invMixCoef (1 - r)) (mixCoef (j - 1)))).xor
    (xorAdditive_gmul_gmul (invMixCoef (2 - r)) (mixCoef (j - 2)))).xor
    (xorAdditive_gmul_gmul (invMixCoef (3 - r)) (mixCoef (j - 3)))
  have hid : XorAdditive fun a => if r = j then a else 0 := by
    intro a b _ _
    split <;> simp
  have hbasis : ∀ r j : Fin 4, ∀ i : Fin 8,
      gmul (invMixCoef (0 - r)) (gmul (mixCoef (j - 0)) (2 ^ i.val)) ^^^
        gmul (invMixCoef (1 - r)) (gmul (mixCoef (j - 1)) (2 ^ i.val)) ^^^
        gmul (invMixCoef (2 - r)) (gmul (mixCoef (j - 2)) (2 ^ i.val)) ^^^
        gmul (invMixCoef (3 - r)) (gmul (mixCoef (j - 3)) (2 ^ i.val)) = if r = j then 2 ^ i.val else 0 := by
    decide +kernel
  have heq := hadd.eq_of_two_pow hid (hbasis r j) hx
  simp only [rowTimesColumn, mulByte_mulByte]
  apply UInt8.toNat_inj.mp
  simp only [UInt8.toNat_xor, UInt8.toNat_ofNat', ← Nat.xor_mod_two_pow, heq]
  split
  · exact Nat.mod_eq_of_lt hx
  · rfl

theorem invMixColumns_mixColumns : invMixColumns (mixColumns s) = s := by
  funext c r
  have hsplit : invMixColumns (mixColumns s) c r = rowTimesColumn r 0 (s c 0) ^^^ rowTimesColumn r 1 (s c 1) ^^^
      rowTimesColumn r 2 (s c 2) ^^^ rowTimesColumn r 3 (s c 3) := by
    simp only [invMixColumns, mixColumns, mulColumns, mulByte_xor, rowTimesColumn]
    ac_rfl
  rw [hsplit]
  simp only [rowTimesColumn_eq]
  fin_cases r <;> simp

theorem addRoundKey_addRoundKey : addRoundKey k (addRoundKey k s) = s := by
  funext c r
  rw [addRoundKey, addRoundKey, UInt8.xor_assoc, UInt8.xor_self, UInt8.xor_zero]

theorem mulColumns_addRoundKey (coef : Fin 4 → Nat) :
    mulColumns coef (addRoundKey k s) = addRoundKey (mulColumns coef k) (mulColumns coef s) := by
  funext c r
  simp only [mulColumns, addRoundKey, mulByte_xor]
  ac_rfl

theorem invSubBytes_invShiftRows : invSubBytes (invShiftRows (shiftRows (subBytes s))) = s := by
  funext c r
  simp only [invSubBytes, invShiftRows, shiftRows, subBytes, sub_add_cancel, sboxInv_sbox]

end

/-- The steps of the cipher. -/
noncomputable def aesSteps : RoundSteps State State where
  addKey := addRoundKey
  sub s := shiftRows (subBytes s)
  subInv s := invSubBytes (invShiftRows s)
  mix := mixColumns
  mixInv := invMixColumns
  mixKeyInv := invMixColumns
  addKey_addKey k s := addRoundKey_addRoundKey s k
  subInv_sub := invSubBytes_invShiftRows
  mixInv_mix := invMixColumns_mixColumns
  mixInv_addKey k s := mulColumns_addRoundKey s k invMixCoef

/-! ## Rounds by tables -/

section
variable {t : List UInt32} {rk : List UInt32} {off : Nat} {s : Words}

theorem entry_24 (t : List UInt32) (w : UInt32) : entry t (w >>> 24) = t.getD (byteOf w 0).toNat 0 := by
  rw [entry, shiftRight_24]

theorem entry_0 (t : List UInt32) (w : UInt32) : entry t (w &&& 0xff) = t.getD (byteOf w 3).toNat 0 := by
  rw [entry, and_0xff]

theorem stateOf_encRound (rk : List UInt32) (off : Nat) (s : Words) :
    stateOf (encRound rk off s) = aesSteps.round (stateOf s) (keyState rk off) := by
  funext c r
  simp only [stateOf, encRound, Words.word_ofFn, byteOf_xor, entry_24, entry_0, byteOf_shiftRight_16,
    byteOf_shiftRight_8, byteOf_Te Te_tables.1, byteOf_Te Te_tables.2.1, byteOf_Te Te_tables.2.2.1,
    byteOf_Te Te_tables.2.2.2]
  simp only [RoundSteps.round, aesSteps, addRoundKey, mixColumns, mulColumns, shiftRows, subBytes, keyState, stateOf,
    add_zero]

theorem stateOf_decRound (rk : List UInt32) (off : Nat) (s : Words) :
    stateOf (decRound rk off s) = aesSteps.roundInv (stateOf s) (keyState rk off) := by
  funext c r
  have h1 : c - 1 = c + 3 := by revert c; decide
  have h2 : c - 2 = c + 2 := by revert c; decide
  have h3 : c - 3 = c + 1 := by revert c; decide
  simp only [stateOf, decRound, Words.word_ofFn, byteOf_xor, entry_24, entry_0, byteOf_shiftRight_16,
    byteOf_shiftRight_8, byteOf_Td Td_tables.1, byteOf_Td Td_tables.2.1, byteOf_Td Td_tables.2.2.1,
    byteOf_Td Td_tables.2.2.2]
  simp only [RoundSteps.roundInv, aesSteps, addRoundKey, invMixColumns, mulColumns, invShiftRows, invSubBytes,
    keyState, stateOf, sub_zero, h1, h2, h3]

theorem byteOf_entryMask (t : List UInt32) (i : UInt32) (m r : Fin 4) (mask : UInt32)
    (hmask : ∀ r, byteOf mask r = if r = m then 0xff else 0) :
    byteOf (entryMask t i mask) r = if r = m then byteOf (entry t i) r else 0 := by
  have hff : ∀ x : UInt8, x &&& 0xff = x := by
    intro x
    have hx : x.toNat < 2 ^ 8 := x.toNat_lt
    apply UInt8.toNat_inj.mp
    rw [UInt8.toNat_and]
    exact (Nat.and_two_pow_sub_one_eq_mod x.toNat 8).trans (Nat.mod_eq_of_lt hx)
  rw [entryMask, byteOf_and, hmask]
  split
  · exact hff _
  · simp

theorem byteOf_mask0 (r : Fin 4) : byteOf 0xff000000 r = if r = 0 then 0xff else 0 := by revert r; decide

theorem byteOf_mask1 (r : Fin 4) : byteOf 0x00ff0000 r = if r = 1 then 0xff else 0 := by revert r; decide

theorem byteOf_mask2 (r : Fin 4) : byteOf 0x0000ff00 r = if r = 2 then 0xff else 0 := by revert r; decide

theorem byteOf_mask3 (r : Fin 4) : byteOf 0x000000ff r = if r = 3 then 0xff else 0 := by revert r; decide

theorem stateOf_encLast (rk : List UInt32) (off : Nat) (s : Words) :
    stateOf (encLast rk off s) = aesSteps.addKey (keyState rk off) (aesSteps.sub (stateOf s)) := by
  funext c r
  simp only [stateOf, encLast, Words.word_ofFn, byteOf_xor, byteOf_entryMask _ _ 0 _ _ byteOf_mask0,
    byteOf_entryMask _ _ 1 _ _ byteOf_mask1, byteOf_entryMask _ _ 2 _ _ byteOf_mask2,
    byteOf_entryMask _ _ 3 _ _ byteOf_mask3, entry_24, entry_0, byteOf_shiftRight_16, byteOf_shiftRight_8, byteOf_Te4]
  simp only [aesSteps, addRoundKey, shiftRows, subBytes, keyState, stateOf]
  fin_cases r <;> simp

theorem stateOf_decLast (rk : List UInt32) (off : Nat) (s : Words) :
    stateOf (decLast rk off s) = aesSteps.addKey (keyState rk off) (aesSteps.subInv (stateOf s)) := by
  funext c r
  have h1 : c - 1 = c + 3 := by revert c; decide
  have h2 : c - 2 = c + 2 := by revert c; decide
  have h3 : c - 3 = c + 1 := by revert c; decide
  simp only [stateOf, decLast, Words.word_ofFn, byteOf_xor, byteOf_entryMask _ _ 0 _ _ byteOf_mask0,
    byteOf_entryMask _ _ 1 _ _ byteOf_mask1, byteOf_entryMask _ _ 2 _ _ byteOf_mask2,
    byteOf_entryMask _ _ 3 _ _ byteOf_mask3, entry_24, entry_0, byteOf_shiftRight_16, byteOf_shiftRight_8, byteOf_Td4]
  simp only [aesSteps, addRoundKey, invShiftRows, invSubBytes, keyState, stateOf]
  fin_cases r <;> simp [h1, h2, h3]

end

end Xmap.Cipher
