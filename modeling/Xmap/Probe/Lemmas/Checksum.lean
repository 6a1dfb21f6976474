import Xmap.Lib.OnesSum
import Xmap.Probe.Headers

/-!
# Checksums as ones' complement sums

The words are summed in the byte order of the host. A checksum that is stored over a zero word fills the sum
up to a multiple of `0xFFFF`.
-/

namespace Xmap.Probe

open Xmap.Lib

section
variable {m : Mem} {a b n j : Nat} {v : UInt16}

/-! ## Sums of words -/

theorem load16_toNat : (load16 m a).toNat = (m a).toNat + 256 * (m (a + 1)).toNat := by
  have h₀ := (m a).toNat_lt
  have h₁ := (m (a + 1)).toNat_lt
  have hread : m.read a 2 = [m a, m (a + 1)] := rfl
  rw [load16, UInt16.toNat_ofNat', Mem.loadLE, hread]
  simp only [List.reverse_cons, List.reverse_nil, List.nil_append, List.cons_append, ofBE,
    List.length_cons, List.length_nil, Nat.shiftLeft_eq]
  omega

theorem load32_toNat : (load32 m a).toNat = (load16 m a).toNat + 2 ^ 16 * (load16 m (a + 2)).toNat := by
  have h₀ := (m a).toNat_lt
  have h₁ := (m (a + 1)).toNat_lt
  have h₂ := (m (a + 2)).toNat_lt
  have h₃ := (m (a + 3)).toNat_lt
  have hread : m.read a 4 = [m a, m (a + 1), m (a + 2), m (a + 3)] := rfl
  have hlast : a + 2 + 1 = a + 3 := rfl
  rw [load16_toNat, load16_toNat, hlast, load32, UInt32.toNat_ofNat', Mem.loadLE, hread]
  simp only [List.reverse_cons, List.reverse_nil, List.nil_append, List.cons_append, ofBE,
    List.length_cons, List.length_nil, Nat.shiftLeft_eq]
  omega

@[simp] theorem sumWords_zero : sumWords m a 0 = 0 := rfl

theorem sumWords_succ : sumWords m a (n + 1) = sumWords m a n + (load16 m (a + 2 * n)).toNat := by
  rw [sumWords, sumWords, List.range_succ, List.map_append, List.sum_append, List.map_singleton,
    List.sum_singleton]

theorem sumWords_add : sumWords m a (n + j) = sumWords m a n + sumWords m (a + 2 * n) j := by
  induction j with
  | zero => rfl
  | succ j ih => rw [← Nat.add_assoc, sumWords_succ, ih, sumWords_succ, Nat.add_assoc, Nat.mul_add,
      ← Nat.add_assoc a]

theorem sumWords_eq : sumWords m a n = (leWords (m.read a (2 * n))).sum := by
  induction n with
  | zero => rfl
  | succ n ih =>
    have hread : m.read a (2 * (n + 1)) = m.read a (2 * n) ++ m.read (a + 2 * n) 2 := Mem.read_add
    have hlast : leWords (m.read (a + 2 * n) 2) = [(load16 m (a + 2 * n)).toNat] := by
      rw [load16_toNat]
      rfl
    rw [sumWords_succ, ih, hread, leWords_append, List.sum_append, hlast, List.sum_singleton]
    simp

theorem sumWords_le : sumWords m a n ≤ n * 0xFFFF := by
  induction n with
  | zero => exact Nat.zero_le _
  | succ n ih =>
    have hlast := (load16 m (a + 2 * n)).toNat_lt
    rw [sumWords_succ, Nat.add_mul]
    omega

theorem sumWords_congr {p : Mem} (h : ∀ i, a ≤ i → i < a + 2 * n → m i = p i) :
    sumWords m a n = sumWords p a n := by
  induction n with
  | zero => rfl
  | succ n ih =>
    have hlast : load16 m (a + 2 * n) = load16 p (a + 2 * n) :=
      load16_congr fun j hj => h _ (by omega) (by omega)
    rw [sumWords_succ, sumWords_succ, ih fun i hi hn => h i hi (by omega), hlast]

theorem sumWords_store16_of_disjoint (h : a + 2 * n ≤ b ∨ b + 2 ≤ a) :
    sumWords (store16 m b v) a n = sumWords m a n :=
  sumWords_congr fun i hi hn => store16_of_disjoint v (by omega)

theorem sumWords_of_zero (h : ∀ i, a ≤ i → i < a + 2 * n → m i = 0) : sumWords m a n = 0 := by
  induction n with
  | zero => rfl
  | succ n ih =>
    have h₀ : m (a + 2 * n) = 0 := h _ (by omega) (by omega)
    have h₁ : m (a + 2 * n + 1) = 0 := h _ (by omega) (by omega)
    rw [sumWords_succ, ih fun i hi hn => h i hi (by omega), load16_toNat, h₀, h₁]
    rfl

/-- A word that was zero adds its new value. -/
theorem sumWords_store16 (hb : b = a + 2 * j) (hj : j < n) (h : load16 m b = 0) :
    sumWords (store16 m b v) a n = sumWords m a n + v.toNat := by
  subst hb
  obtain ⟨i, rfl⟩ := Nat.exists_eq_add_of_lt hj
  have hsplit (p : Mem) : sumWords p a (j + i + 1) =
      sumWords p a j + (load16 p (a + 2 * j)).toNat + sumWords p (a + 2 * j + 2) i := by
    rw [Nat.add_right_comm, sumWords_add, sumWords_succ, Nat.mul_add, Nat.add_assoc a]
  rw [hsplit, hsplit, load16_store16, h, sumWords_store16_of_disjoint (by omega),
    sumWords_store16_of_disjoint (by omega)]
  simp only [UInt16.toNat_zero]
  omega

/-- The halves of a word, as the sum of the pseudo-header takes them. -/
theorem load32_halves :
    (load32 m a).toNat % 2 ^ 16 + (load32 m a).toNat / 2 ^ 16 = sumWords m a 2 := by
  have h₀ := (load16 m a).toNat_lt
  have h₁ := (load16 m (a + 2)).toNat_lt
  simp only [sumWords_succ, sumWords_zero, load32_toNat, Nat.mul_zero, Nat.add_zero, Nat.mul_one]
  omega

/-! ## The checksum of a sum -/

/-- The sum is a multiple of `0xFFFF` other than zero. -/
def AllOnes (s : Nat) : Prop := 0xFFFF ∣ s ∧ s ≠ 0

theorem inetSum_read_iff : inetSum (m.read a (2 * n)) = 0xFFFF ↔ AllOnes (sumWords m a n) := by
  rw [inetSum_eq_max_iff, sumWords_eq, AllOnes]

theorem foldSum_allOnes {s : Nat} (hs : s < 2 ^ 32) : AllOnes (s + (foldSum s).toNat) := by
  have hle := foldCarry_foldCarry_le (n := 0xFFFF) hs
  have hmod : foldCarry 0xFFFF (foldCarry 0xFFFF s) ≡ s [MOD 0xFFFF] := foldCarry_modEq.trans foldCarry_modEq
  have hsum : (foldSum s).toNat = 0xFFFF - foldCarry 0xFFFF (foldCarry 0xFFFF s) := by
    simp only [foldCarry] at hle ⊢
    simp only [foldSum, UInt16.toNat_not, UInt16.toNat_ofNat', UInt16.size]
    omega
  constructor
  · rw [hsum]
    rw [Nat.ModEq] at hmod
    omega
  · intro hzero
    obtain rfl : s = 0 := by omega
    exact absurd hzero (by decide)

/-- A checksum of words and a constant `r`, stored over a zero word among them. -/
theorem sumWords_checksum {r : Nat} (hb : b = a + 2 * j) (hj : j < n) (h : load16 m b = 0)
    (hr : n * 0xFFFF + r < 2 ^ 32) :
    AllOnes (sumWords (store16 m b (foldSum (sumWords m a n + r))) a n + r) := by
  have hle : sumWords m a n ≤ n * 0xFFFF := sumWords_le
  rw [sumWords_store16 hb hj h, Nat.add_right_comm]
  exact foldSum_allOnes (by omega)

theorem sumWords_checksum_self (hb : b = a + 2 * j) (hj : j < n) (h : load16 m b = 0)
    (hn : n * 0xFFFF < 2 ^ 32) :
    AllOnes (sumWords (store16 m b (foldSum (sumWords m a n))) a n) := by
  have hle : sumWords m a n ≤ n * 0xFFFF := sumWords_le
  rw [sumWords_store16 hb hj h]
  exact foldSum_allOnes (by omega)

end

end Xmap.Probe
