import Mathlib.Tactic

/-!
# Ranges of residues

A range goes upwards modulo `q` from its first residue to the one before its end. Cuts of `0..q` that are
all turned by one offset cut the residues into ranges.
-/

namespace Xmap.Lib

/-- The residues from `b` on, up to and without `e`; none when `b = e`. -/
def cyclicRange (q b e : Nat) : Set Nat := {x | x < q ∧ (x + (q - b)) % q < (e + (q - b)) % q}

variable {q b k l x : Nat}

theorem add_mod_sub (hb : b < q) (h : l < q) : ((b + l) % q + (q - b)) % q = l := by
  rw [Nat.mod_add_mod, show b + l + (q - b) = l + q by omega, Nat.add_mod_right, Nat.mod_eq_of_lt h]

theorem eq_add_mod (hb : b < q) (hx : x < q) : (b + (x + (q - b)) % q) % q = x := by
  rw [Nat.add_mod_mod, show b + (x + (q - b)) = x + q by omega, Nat.add_mod_right, Nat.mod_eq_of_lt hx]

/-- A range of `l` residues. -/
theorem mem_cyclicRange_add (hl : l < q) :
    x ∈ cyclicRange q (b % q) ((b + l) % q) ↔ ∃ j < l, x = (b + j) % q := by
  have hq : 0 < q := by omega
  have hb := Nat.mod_lt b hq
  rw [← Nat.mod_add_mod b]
  constructor
  · rintro ⟨hx, hlt⟩
    rw [add_mod_sub hb hl] at hlt
    exact ⟨_, hlt, by rw [← Nat.mod_add_mod, eq_add_mod hb hx]⟩
  · rintro ⟨j, hj, rfl⟩
    refine ⟨Nat.mod_lt _ hq, ?_⟩
    rwa [← Nat.mod_add_mod b q j, add_mod_sub hb (by omega), add_mod_sub hb hl]

theorem cyclicRange_self (hb : b < q) : cyclicRange q b b = ∅ := by
  refine Set.eq_empty_of_forall_notMem fun x hx => ?_
  have hlt := hx.2
  rw [show b + (q - b) = q by omega, Nat.mod_self] at hlt
  omega

theorem left_mem_cyclicRange {e : Nat} (hb : b < q) (he : e < q) (hne : b ≠ e) : b ∈ cyclicRange q b e := by
  refine ⟨hb, ?_⟩
  rw [show b + (q - b) = q by omega, Nat.mod_self, Nat.pos_iff_ne_zero]
  intro h0
  have hmul := eq_add_mod hb he
  rw [h0, Nat.add_zero, Nat.mod_eq_of_lt hb] at hmul
  exact hne hmul

/-- Turned residues are equal exactly when they were. -/
theorem add_mod_inj {y z : Nat} (hy : y < q) (hz : z < q) (h : (k + y) % q = (k + z) % q) : y = z := by
  have hmod : y ≡ z [MOD q] := Nat.ModEq.add_left_cancel' k h
  rwa [Nat.ModEq, Nat.mod_eq_of_lt hy, Nat.mod_eq_of_lt hz] at hmod

/-! ## Cuts -/

/-- Increasing points from 0 to `q`, with no piece that is all of it. -/
structure Cuts (m : Nat → Nat) (n q : Nat) : Prop where
  zero : m 0 = 0
  last : m n = q
  lt : ∀ i < n, m i < m (i + 1)
  two : 2 ≤ n

namespace Cuts

variable {m : Nat → Nat} {n i j : Nat}

theorem mono (h : Cuts m n q) (hij : i ≤ j) (hj : j ≤ n) : m i ≤ m j := by
  induction j, hij using Nat.le_induction with
  | base => exact le_rfl
  | succ j _ ih => exact (ih (by omega)).trans (h.lt j (by omega)).le

theorem piece_le (h : Cuts m n q) (hi : i < n) : m (i + 1) ≤ q := h.last ▸ h.mono hi le_rfl

theorem piece_lt (h : Cuts m n q) (hi : i < n) : m (i + 1) - m i < q := by
  have hle := h.piece_le hi
  have hlt := h.lt i hi
  cases i with
  | zero =>
    have hnext : m (0 + 1) < q := lt_of_lt_of_le (h.lt 1 h.two) (h.piece_le h.two)
    exact lt_of_le_of_lt (Nat.sub_le _ _) hnext
  | succ i =>
    have hpos : 0 < m (i + 1) := Nat.zero_lt_of_lt (h.lt i (by omega))
    omega

/-- A piece, turned by `k`, holds the turned residues between its cuts. -/
theorem mem_piece (h : Cuts m n q) (hi : i < n) :
    x ∈ cyclicRange q ((m i + k) % q) ((m (i + 1) + k) % q) ↔
      ∃ y, m i ≤ y ∧ y < m (i + 1) ∧ x = (k + y) % q := by
  have hlt := h.lt i hi
  rw [show m (i + 1) + k = m i + k + (m (i + 1) - m i) by omega, mem_cyclicRange_add (h.piece_lt hi)]
  constructor
  · rintro ⟨j, hj, rfl⟩
    exact ⟨m i + j, by omega, by omega, by congr 1; omega⟩
  · rintro ⟨y, hle, hy, rfl⟩
    exact ⟨y - m i, by omega, by congr 1; omega⟩

theorem nonempty (h : Cuts m n q) (hi : i < n) :
    (cyclicRange q ((m i + k) % q) ((m (i + 1) + k) % q)).Nonempty :=
  ⟨_, (h.mem_piece hi).mpr ⟨m i, le_rfl, h.lt i hi, rfl⟩⟩

theorem disjoint (h : Cuts m n q) (hi : i < n) (hj : j < n) (hne : i ≠ j) :
    ∀ x ∈ cyclicRange q ((m i + k) % q) ((m (i + 1) + k) % q),
      x ∉ cyclicRange q ((m j + k) % q) ((m (j + 1) + k) % q) := by
  intro x hxi hxj
  obtain ⟨y, hy, hy', rfl⟩ := (h.mem_piece hi).mp hxi
  obtain ⟨z, hz, hz', heq⟩ := (h.mem_piece hj).mp hxj
  have hyz := add_mod_inj (lt_of_lt_of_le hy' (h.piece_le hi)) (lt_of_lt_of_le hz' (h.piece_le hj)) heq
  rcases Nat.lt_or_gt_of_ne hne with hlt | hlt
  · have := h.mono (show i + 1 ≤ j from hlt) hj.le
    omega
  · have := h.mono (show j + 1 ≤ i from hlt) hi.le
    omega

theorem exists_piece (h : Cuts m n q) {y : Nat} (hy : y < q) : ∃ i < n, m i ≤ y ∧ y < m (i + 1) := by
  have hrun : ∀ j ≤ n, y < m j → ∃ i < j, m i ≤ y ∧ y < m (i + 1) := by
    intro j
    induction j with
    | zero =>
      intro _ hlt
      rw [h.zero] at hlt
      omega
    | succ j ih =>
      intro hj hlt
      by_cases hle : m j ≤ y
      · exact ⟨j, by omega, hle, hlt⟩
      · obtain ⟨i, hi, hpiece⟩ := ih (by omega) (by omega)
        exact ⟨i, by omega, hpiece⟩
  exact hrun n le_rfl (h.last ▸ hy)

theorem cover (h : Cuts m n q) (hx : x < q) :
    ∃ i < n, x ∈ cyclicRange q ((m i + k) % q) ((m (i + 1) + k) % q) := by
  have hk := Nat.mod_lt k (show 0 < q by omega)
  obtain ⟨i, hi, hle, hlt⟩ := h.exists_piece (Nat.mod_lt (x + (q - k % q)) (by omega))
  refine ⟨i, hi, (h.mem_piece hi).mpr ⟨_, hle, hlt, ?_⟩⟩
  rw [← Nat.mod_add_mod, eq_add_mod hk hx]

end Cuts

end Xmap.Lib
