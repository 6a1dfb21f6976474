import Xmap.Cipher.Aes
import Xmap.Cipher.Rijndael
import Xmap.Lib.WordBytes

/-!
# What the tables hold

The tables are compared with the S-box as whole lists. The rest of the proofs uses the bytes of an entry.
-/

namespace Xmap.Cipher

open Xmap.Lib

/-- The number with these bytes, from the highest one on. -/
def rowsOf (f : Fin 4 → Nat) : Nat := ((f 0 * 256 + f 1) * 256 + f 2) * 256 + f 3

/-- The entries of a table are the columns of a matrix with `coef (k - r)` in row `r`, times the entries of a box. -/
def IsColumnTable (t box : List UInt32) (coef : Fin 4 → Nat) (k : Fin 4) : Prop :=
  t.map UInt32.toNat = box.map fun w => rowsOf fun r => gmul (coef (k - r)) (w.toNat % 256)

instance (t box : List UInt32) (coef : Fin 4 → Nat) (k : Fin 4) : Decidable (IsColumnTable t box coef k) :=
  inferInstanceAs (Decidable (_ = _))

/-! ## The lists -/

/-- The lowest bytes of a table as the digits of a number, in which they are found faster. -/
def pack (t : List UInt32) : Nat := t.foldr (fun w n => w.toNat % 256 + 256 * n) 0

theorem pack_digit (t : List UInt32) (i : Nat) : pack t / 256 ^ i % 256 = (t.getD i 0).toNat % 256 := by
  induction t generalizing i with
  | nil => simp [pack]
  | cons w t ih =>
    have hlow : w.toNat % 256 < 256 := Nat.mod_lt _ (by decide)
    cases i with
    | zero => simp [pack]
    | succ i =>
      have hrest : (w.toNat % 256 + 256 * pack t) / 256 = pack t := by omega
      rw [List.getD_cons_succ, ← ih, Nat.pow_succ', ← Nat.div_div_eq_div_mul]
      exact congrArg (fun n => n / 256 ^ i % 256) hrest

/-- All that is evaluated on the tables. -/
theorem tables_eval :
    (Te4.map UInt32.toNat = (List.range 256).map fun i => rowsOf fun _ => affine (ginv i)) ∧
    Td4.length = 256 ∧
    (Td4.map UInt32.toNat = Td4.map fun w => rowsOf fun _ => w.toNat % 256) ∧
    (∀ i : Fin 256, pack Td4 / 256 ^ (pack Te4 / 256 ^ i.val % 256) % 256 = i.val) ∧
    (IsColumnTable Te0 Te4 mixCoef 0 ∧ IsColumnTable Te1 Te4 mixCoef 1 ∧ IsColumnTable Te2 Te4 mixCoef 2 ∧
      IsColumnTable Te3 Te4 mixCoef 3) ∧
    IsColumnTable Td0 Td4 invMixCoef 0 ∧ IsColumnTable Td1 Td4 invMixCoef 1 ∧ IsColumnTable Td2 Td4 invMixCoef 2 ∧
      IsColumnTable Td3 Td4 invMixCoef 3 := by
  decide +kernel

theorem Te4_list : Te4.map UInt32.toNat = (List.range 256).map fun i => rowsOf fun _ => affine (ginv i) :=
  tables_eval.1

theorem Te4_length : Te4.length = 256 := by
  have h := congrArg List.length Te4_list
  rwa [List.length_map, List.length_map, List.length_range] at h

theorem Td4_length : Td4.length = 256 := tables_eval.2.1

theorem Td4_list : Td4.map UInt32.toNat = Td4.map fun w => rowsOf fun _ => w.toNat % 256 := tables_eval.2.2.1

theorem Td4_Te4 (i : Fin 256) : (Td4.getD ((Te4.getD i.val 0).toNat % 256) 0).toNat % 256 = i.val := by
  rw [← pack_digit, ← pack_digit]
  exact tables_eval.2.2.2.1 i

theorem Te_tables : IsColumnTable Te0 Te4 mixCoef 0 ∧ IsColumnTable Te1 Te4 mixCoef 1 ∧
    IsColumnTable Te2 Te4 mixCoef 2 ∧ IsColumnTable Te3 Te4 mixCoef 3 :=
  tables_eval.2.2.2.2.1

theorem Td_tables : IsColumnTable Td0 Td4 invMixCoef 0 ∧ IsColumnTable Td1 Td4 invMixCoef 1 ∧
    IsColumnTable Td2 Td4 invMixCoef 2 ∧ IsColumnTable Td3 Td4 invMixCoef 3 :=
  tables_eval.2.2.2.2.2

/-! ## Entries -/

section
variable {t box : List UInt32} {f : Fin 4 → Nat} {w : UInt32} {x : UInt8}

theorem byteOf_of_rowsOf (h : w.toNat = rowsOf f) (hf : ∀ r, f r < 256) (r : Fin 4) :
    byteOf w r = UInt8.ofNat (f r) := by
  have h0 := hf 0
  have h1 := hf 1
  have h2 := hf 2
  have h3 := hf 3
  apply UInt8.toNat_inj.mp
  rw [byteOf_toNat, h, rowsOf]
  fin_cases r <;> simp <;> omega

theorem getD_toNat (t : List UInt32) (i : Nat) : (t.getD i 0).toNat = (t.map UInt32.toNat).getD i 0 := by
  rw [List.getD_eq_getElem?_getD, List.getD_eq_getElem?_getD, List.getElem?_map]
  cases t[i]? <;> rfl

theorem gmul_toNat_lt (c : Nat) (n : Nat) : gmul c (n % 256) < 256 := gmul_lt (Nat.mod_lt _ (by decide))

theorem affine_lt {a : Nat} (h : a < 256) : affine a < 256 := by
  have hrot : ∀ k : Fin 5, a * 2 ^ k.val % 256 + a / 2 ^ (8 - k.val) < 256 := by
    intro k
    fin_cases k <;> simp <;> omega
  apply xor_lt_256 _ (by decide)
  apply xor_lt_256 _ (hrot 4)
  apply xor_lt_256 _ (hrot 3)
  apply xor_lt_256 _ (hrot 2)
  exact xor_lt_256 h (hrot 1)

theorem ginv_lt {a : Nat} (h : a < 256) : ginv a < 256 := by
  have hsq : ∀ b, b < 256 → gsq b < 256 := fun b hb => gmul_lt hb
  have h4 : gmul (gsq (gsq a)) (gsq a) < 256 := gmul_lt (hsq a h)
  exact gmul_lt (gmul_lt (gmul_lt (gmul_lt (gmul_lt h4))))

/-- `Te4` is the S-box in every byte. -/
theorem byteOf_Te4 (x : UInt8) (r : Fin 4) : byteOf (Te4.getD x.toNat 0) r = sbox x := by
  have hx : x.toNat < 256 := x.toNat_lt
  have hentry : (Te4.getD x.toNat 0).toNat = rowsOf fun _ => affine (ginv x.toNat) := by
    rw [getD_toNat, Te4_list, List.getD_eq_getElem?_getD, List.getElem?_map, List.getElem?_range hx]
    rfl
  exact byteOf_of_rowsOf hentry (fun _ => affine_lt (ginv_lt hx)) r

theorem IsColumnTable.byteOf_entry {coef : Fin 4 → Nat} {k : Fin 4} (h : IsColumnTable t box coef k)
    (hlen : x.toNat < box.length) (r : Fin 4) :
    byteOf (t.getD x.toNat 0) r = mulByte (coef (k - r)) (byteOf (box.getD x.toNat 0) 3) := by
  have hentry : (t.getD x.toNat 0).toNat =
      rowsOf fun r => gmul (coef (k - r)) ((box.getD x.toNat 0).toNat % 256) := by
    rw [getD_toNat, h, List.getD_eq_getElem?_getD, List.getElem?_map, List.getD_eq_getElem?_getD,
      List.getElem?_eq_getElem hlen]
    rfl
  have hbyte : (byteOf (box.getD x.toNat 0) 3).toNat = (box.getD x.toNat 0).toNat % 256 := by
    rw [byteOf_toNat]
    simp
  rw [byteOf_of_rowsOf hentry (fun _ => gmul_toNat_lt _ _), mulByte, hbyte]

theorem byteOf_Te {k : Fin 4} (h : IsColumnTable t Te4 mixCoef k) (x : UInt8) (r : Fin 4) :
    byteOf (t.getD x.toNat 0) r = mulByte (mixCoef (k - r)) (sbox x) := by
  rw [h.byteOf_entry (by rw [Te4_length]; exact x.toNat_lt), byteOf_Te4]

/-! ## The inverse box -/

theorem byteOf_Td4_sbox (x : UInt8) : byteOf (Td4.getD (sbox x).toNat 0) 3 = x := by
  have hx : x.toNat < 256 := x.toNat_lt
  have hbox : (Te4.getD x.toNat 0).toNat % 256 = (sbox x).toNat := by
    rw [← byteOf_Te4 x 3, byteOf_toNat]
    simp
  have hinv : (Td4.getD ((Te4.getD x.toNat 0).toNat % 256) 0).toNat % 256 = x.toNat := Td4_Te4 ⟨x.toNat, hx⟩
  rw [hbox] at hinv
  apply UInt8.toNat_inj.mp
  rw [byteOf_toNat]
  simpa using hinv

theorem sbox_injective : Function.Injective sbox := by
  intro x y h
  rw [← byteOf_Td4_sbox x, h, byteOf_Td4_sbox]

theorem sboxInv_sbox (x : UInt8) : sboxInv (sbox x) = x := Function.leftInverse_invFun sbox_injective x

theorem sbox_surjective : Function.Surjective sbox := by
  have : Finite UInt8 := Finite.of_injective UInt8.toFin fun _ _ => UInt8.toFin_inj.mp
  exact Finite.surjective_of_injective sbox_injective

/-- `Td4` is the inverse of the S-box in every byte. -/
theorem byteOf_Td4 (x : UInt8) (r : Fin 4) : byteOf (Td4.getD x.toNat 0) r = sboxInv x := by
  obtain ⟨y, rfl⟩ := sbox_surjective x
  have hlen : (sbox y).toNat < Td4.length := by
    rw [Td4_length]
    exact (sbox y).toNat_lt
  have hentry : (Td4.getD (sbox y).toNat 0).toNat = rowsOf fun _ => (Td4.getD (sbox y).toNat 0).toNat % 256 := by
    conv_lhs => rw [getD_toNat, Td4_list, List.getD_eq_getElem?_getD, List.getElem?_map,
      List.getElem?_eq_getElem hlen]
    rw [List.getD_eq_getElem?_getD, List.getElem?_eq_getElem hlen]
    rfl
  have hlow : ∀ r, byteOf (Td4.getD (sbox y).toNat 0) r = UInt8.ofNat ((Td4.getD (sbox y).toNat 0).toNat % 256) :=
    byteOf_of_rowsOf hentry fun _ => Nat.mod_lt _ (by decide)
  rw [hlow r, ← hlow 3, byteOf_Td4_sbox, sboxInv_sbox]

theorem byteOf_Td {k : Fin 4} (h : IsColumnTable t Td4 invMixCoef k) (x : UInt8) (r : Fin 4) :
    byteOf (t.getD x.toNat 0) r = mulByte (invMixCoef (k - r)) (sboxInv x) := by
  rw [h.byteOf_entry (by rw [Td4_length]; exact x.toNat_lt), byteOf_Td4]

end

end Xmap.Cipher
