import Mathlib.Tactic

/-!
# Shares

An amount is divided evenly, and the first shares get one more each until the remainder is used up.
-/

namespace Xmap.Lib

/-- Share `i` when `m` is divided by `k`. -/
def share (m k i : Nat) : Nat := m / k + if i < m % k then 1 else 0

variable {m k i : Nat}

theorem share_le : share m k i ≤ m := by
  cases Nat.eq_zero_or_pos k with
  | inl hk =>
    subst hk
    rw [share, Nat.div_zero, Nat.mod_zero]
    split <;> omega
  | inr hk =>
    have hdiv := Nat.div_add_mod m k
    have hle : m / k ≤ k * (m / k) := Nat.le_mul_of_pos_left _ hk
    rw [share]
    split <;> omega

theorem share_eq_of_dvd (h : k ∣ m) : share m k i = m / k := by
  simp [share, Nat.mod_eq_zero_of_dvd h]

/-- The shares from 0 on add up to the amount. -/
theorem sum_share (hk : 0 < k) : ∑ i ∈ Finset.range k, share m k i = m := by
  have hrest : ∑ i ∈ Finset.range k, (if i < m % k then 1 else 0) = m % k := by
    rw [← Finset.card_filter]
    have : (Finset.range k).filter (· < m % k) = Finset.range (m % k) := by
      ext i
      have := Nat.mod_lt m hk
      simp only [Finset.mem_filter, Finset.mem_range]
      omega
    rw [this, Finset.card_range]
  simp only [share, Finset.sum_add_distrib, hrest, Finset.sum_const, Finset.card_range, smul_eq_mul]
  exact Nat.div_add_mod m k

/-- The shares from 1 on miss one where there is a remainder. -/
theorem sum_share_succ (hk : 0 < k) :
    (∑ i ∈ Finset.range k, share m k (i + 1)) + (if k ∣ m then 0 else 1) = m := by
  have hfirst : share m k 0 = m / k + if k ∣ m then 0 else 1 := by
    rw [share]
    by_cases h : k ∣ m
    · simp [h, Nat.mod_eq_zero_of_dvd h]
    · have : 0 < m % k := Nat.pos_of_ne_zero (mt Nat.dvd_of_mod_eq_zero h)
      simp [h, this]
  have hlast : share m k k = m / k := by
    have := Nat.mod_lt m hk
    rw [share, if_neg (by omega), Nat.add_zero]
  have hshift := (Finset.sum_range_succ' (share m k) k).symm.trans (Finset.sum_range_succ (share m k) k)
  rw [hfirst, hlast, sum_share hk] at hshift
  omega

theorem sum_share_succ_eq_iff : ∑ i ∈ Finset.range k, share m k (i + 1) = m ↔ k ∣ m := by
  cases Nat.eq_zero_or_pos k with
  | inl hk =>
    subst hk
    simp [eq_comm]
  | inr hk =>
    have := sum_share_succ (m := m) hk
    split at this
    · next h => exact iff_of_true (by omega) h
    · next h => exact iff_of_false (by omega) h

/-- A sum over blocks of the same length is the sum over all their indices. -/
theorem sum_blocks (f : Nat → Nat) (n k : Nat) :
    ∑ b ∈ Finset.range n, ∑ i ∈ Finset.range k, f (b * k + i) = ∑ i ∈ Finset.range (n * k), f i := by
  induction n with
  | zero => simp
  | succ n ih => rw [Finset.sum_range_succ, ih, Nat.succ_mul, Finset.sum_range_add]

end Xmap.Lib
