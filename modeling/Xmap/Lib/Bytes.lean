import Mathlib.Data.List.GetD
import Mathlib.Tactic

/-!
# Bytes in a memory

Words as their bytes, most significant first, and blocks of bytes that are written to and read from a
memory.
-/

namespace Xmap.Lib

/-! ## Words -/

/-- The `w` low bytes of a number, most significant first. -/
def toBE : Nat → Nat → List UInt8
  | 0, _ => []
  | w + 1, n => UInt8.ofNat (n >>> (8 * w)) :: toBE w n

/-- The number with the given bytes. -/
def ofBE : List UInt8 → Nat
  | [] => 0
  | b :: bs => b.toNat <<< (8 * bs.length) + ofBE bs

@[simp] theorem length_toBE (w n : Nat) : (toBE w n).length = w := by
  induction w with
  | zero => rfl
  | succ w ih => rw [toBE, List.length_cons, ih]

theorem ofBE_toBE (w n : Nat) : ofBE (toBE w n) = n % 2 ^ (8 * w) := by
  induction w with
  | zero => simp [toBE, ofBE, Nat.mod_one]
  | succ w ih =>
    have hsplit : n % 2 ^ (8 * (w + 1)) =
        2 ^ (8 * w) * (n / 2 ^ (8 * w) % 2 ^ 8) + n % 2 ^ (8 * w) := by
      rw [show 8 * (w + 1) = 8 * w + 8 by omega, pow_add, Nat.mod_mul, Nat.add_comm]
    rw [toBE, ofBE, ih, length_toBE, hsplit, Nat.shiftLeft_eq, UInt8.toNat_ofNat',
      Nat.shiftRight_eq_div_pow, Nat.mul_comm]

theorem ofBE_toBE_of_lt {w n : Nat} (h : n < 2 ^ (8 * w)) : ofBE (toBE w n) = n := by
  rw [ofBE_toBE, Nat.mod_eq_of_lt h]

theorem ofBE_lt (bs : List UInt8) : ofBE bs < 2 ^ (8 * bs.length) := by
  induction bs with
  | nil => exact Nat.one_pos
  | cons b bs ih =>
    have hb : b.toNat < 2 ^ 8 := b.toNat_lt
    have : (b.toNat + 1) * 2 ^ (8 * bs.length) ≤ 2 ^ 8 * 2 ^ (8 * bs.length) :=
      Nat.mul_le_mul_right _ hb
    rw [ofBE, Nat.shiftLeft_eq, List.length_cons, show 8 * (bs.length + 1) = 8 + 8 * bs.length by ring,
      pow_add]
    rw [Nat.add_mul, Nat.one_mul] at this
    omega

/-- The low bytes do not depend on what stands above them. -/
theorem toBE_add_mul (w n k : Nat) : toBE w (n + 2 ^ (8 * w) * k) = toBE w n := by
  induction w generalizing k with
  | zero => rfl
  | succ w ih =>
    have hpow : 2 ^ (8 * (w + 1)) * k = 2 ^ (8 * w) * (256 * k) := by
      rw [show 8 * (w + 1) = 8 * w + 8 by ring, pow_add, Nat.mul_assoc]
      rfl
    have hhead : (n + 2 ^ (8 * w) * (256 * k)) / 2 ^ (8 * w) = n / 2 ^ (8 * w) + 256 * k :=
      Nat.add_mul_div_left _ _ (Nat.two_pow_pos _)
    rw [toBE, toBE, hpow, ih, Nat.shiftRight_eq_div_pow, Nat.shiftRight_eq_div_pow, hhead]
    congr 1
    refine UInt8.toNat_inj.mp ?_
    rw [UInt8.toNat_ofNat', UInt8.toNat_ofNat', Nat.add_mul_mod_self_left]

theorem toBE_ofBE (bs : List UInt8) : toBE bs.length (ofBE bs) = bs := by
  induction bs with
  | nil => rfl
  | cons b bs ih =>
    have hlow := toBE_add_mul bs.length (ofBE bs) b.toNat
    have hhead : (ofBE bs + 2 ^ (8 * bs.length) * b.toNat) / 2 ^ (8 * bs.length) = b.toNat := by
      rw [Nat.add_mul_div_left _ _ (Nat.two_pow_pos _), Nat.div_eq_of_lt (ofBE_lt bs), Nat.zero_add]
    rw [List.length_cons, toBE, ofBE, Nat.shiftLeft_eq, Nat.mul_comm, Nat.add_comm, hlow, ih,
      Nat.shiftRight_eq_div_pow, hhead, UInt8.ofNat_toNat]

/-- The word with the bytes in the other order. -/
def swap (w n : Nat) : Nat := ofBE (toBE w n).reverse

theorem swap_lt (w n : Nat) : swap w n < 2 ^ (8 * w) := by
  have := ofBE_lt (toBE w n).reverse
  rwa [List.length_reverse, length_toBE] at this

theorem swap_swap {w n : Nat} (h : n < 2 ^ (8 * w)) : swap w (swap w n) = n := by
  have hbytes := toBE_ofBE (toBE w n).reverse
  rw [List.length_reverse, length_toBE] at hbytes
  rw [swap, swap, hbytes, List.reverse_reverse, ofBE_toBE_of_lt h]

/-! ## Memories -/

abbrev Mem := Nat → UInt8

namespace Mem

variable {m : Mem} {a b n k : Nat} {bs cs : List UInt8}

def write (m : Mem) (a : Nat) (bs : List UInt8) : Mem := fun i =>
  if a ≤ i ∧ i < a + bs.length then bs.getD (i - a) 0 else m i

def read (m : Mem) (a n : Nat) : List UInt8 := (List.range n).map fun i => m (a + i)

@[simp] theorem length_read : (m.read a n).length = n := by simp [read]

theorem read_add : m.read a (n + k) = m.read a n ++ m.read (a + n) k := by
  simp [read, List.range_add, Function.comp_def, Nat.add_assoc]

theorem write_apply_of_disjoint {i : Nat} (h : i < a ∨ a + bs.length ≤ i) : m.write a bs i = m i := by
  rw [write, if_neg (by omega)]

theorem write_replicate_apply {v : UInt8} {i : Nat} (h : a ≤ i) (hi : i < a + n) :
    m.write a (List.replicate n v) i = v := by
  rw [write, List.length_replicate, if_pos ⟨h, hi⟩]
  exact List.getD_replicate v (by omega)

theorem read_write_of_disjoint (h : a + n ≤ b ∨ b + bs.length ≤ a) :
    (m.write b bs).read a n = m.read a n := by
  refine List.map_congr_left fun i hi => ?_
  have hi := List.mem_range.mp hi
  rw [write, if_neg (by omega)]

theorem read_write_self : (m.write a bs).read a bs.length = bs := by
  refine List.ext_getElem (by simp) fun i h₁ h₂ => ?_
  simp [read, write, h₂]

theorem write_append : (m.write a bs).write (a + bs.length) cs = m.write a (bs ++ cs) := by
  funext i
  simp only [write, List.length_append]
  by_cases hc : a + bs.length ≤ i ∧ i < a + bs.length + cs.length
  · rw [if_pos hc, if_pos (by omega), List.getD_append_right _ _ _ _ (by omega)]
    congr 1
    omega
  · rw [if_neg hc]
    by_cases hb : a ≤ i ∧ i < a + bs.length
    · rw [if_pos hb, if_pos (by omega), List.getD_append _ _ _ _ (by omega)]
    · rw [if_neg hb, if_neg (by omega)]

/-- A block of bytes stands at an address. -/
def Holds (m : Mem) (a : Nat) (bs : List UInt8) : Prop := m.read a bs.length = bs

@[simp] theorem holds_nil : m.Holds a [] := rfl

theorem holds_append : m.Holds a (bs ++ cs) ↔ m.Holds a bs ∧ m.Holds (a + bs.length) cs := by
  rw [Holds, List.length_append, read_add]
  constructor
  · intro h
    exact List.append_inj h (by simp)
  · rintro ⟨hb, hc⟩
    rw [hb, hc]

theorem holds_write_self : (m.write a bs).Holds a bs := read_write_self

theorem Holds.write (h : m.Holds a bs) (hd : a + bs.length ≤ b ∨ b + cs.length ≤ a) :
    (m.write b cs).Holds a bs := by
  rw [Holds, read_write_of_disjoint hd]
  exact h

/-! ## Words in a memory, least significant byte first -/

def loadLE (w : Nat) (m : Mem) (a : Nat) : Nat := ofBE (m.read a w).reverse

def storeLE (w : Nat) (m : Mem) (a n : Nat) : Mem := m.write a (toBE w n).reverse

theorem loadLE_storeLE (w : Nat) : (m.storeLE w a n).loadLE w a = n % 2 ^ (8 * w) := by
  have hread : (m.storeLE w a n).read a w = (toBE w n).reverse := by
    have hself : (m.write a (toBE w n).reverse).read a (toBE w n).reverse.length =
        (toBE w n).reverse := read_write_self
    rwa [List.length_reverse, length_toBE] at hself
  rw [loadLE, hread, List.reverse_reverse, ofBE_toBE]

theorem loadLE_storeLE_of_disjoint {v w : Nat} (h : a + v ≤ b ∨ b + w ≤ a) :
    (m.storeLE w b n).loadLE v a = m.loadLE v a := by
  rw [loadLE, loadLE, storeLE, read_write_of_disjoint]
  rwa [List.length_reverse, length_toBE]

theorem storeLE_apply_of_disjoint {i w : Nat} (h : i < b ∨ b + w ≤ i) : m.storeLE w b n i = m i := by
  rw [storeLE, write_apply_of_disjoint]
  rwa [List.length_reverse, length_toBE]

end Mem

end Xmap.Lib
