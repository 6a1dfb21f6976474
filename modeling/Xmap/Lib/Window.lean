import Mathlib.Tactic

/-!
# Windows of residues

The residues modulo `n` of some consecutive words, which may wrap at `w`. A test against the last residue
accepts an initial range; it accepts the window exactly when the window is that range.
-/

namespace Xmap.Lib

variable {n s t v w x : Nat}

theorem add_mod_of_lt {j : Nat} (hj : j < n) :
    (x + j) % n = if x % n + j < n then x % n + j else x % n + j - n := by
  have hx := Nat.mod_lt x (by omega : 0 < n)
  have hsplit : (x + j) % n = (x % n + j) % n := by rw [Nat.mod_add_mod]
  rw [hsplit]
  split
  · next h => exact Nat.mod_eq_of_lt h
  · next h =>
    rw [Nat.mod_eq_sub_mod (by omega), Nat.mod_eq_of_lt (by omega)]

theorem exists_add_mod (hs : n ≤ s) (ht : t < n) : ∃ i < s, (x + i) % n = t := by
  have hx := Nat.mod_lt x (by omega : 0 < n)
  by_cases h : x % n ≤ t
  · refine ⟨t - x % n, by omega, ?_⟩
    rw [add_mod_of_lt (by omega), if_pos (by omega)]
    omega
  · refine ⟨t + n - x % n, by omega, ?_⟩
    rw [add_mod_of_lt (by omega), if_neg (by omega)]
    omega

/-- The residues of `s` words from `v` on. -/
def InWindow (w n v s t : Nat) : Prop := ∃ i < s, (v + i) % w % n = t

/-- The initial range up to the last word's residue is the window. -/
def WindowIsInitial (w n v s : Nat) : Prop :=
  ∀ t < n, t ≤ (v + (s - 1)) % w % n ↔ InWindow w n v s t

/-- If every residue is in the window, the range has to be the whole circle. -/
theorem last_iff {l : Nat} (hn : 0 < n) {P : Nat → Prop} (hall : ∀ t < n, P t) :
    (∀ t < n, t ≤ l % n ↔ P t) ↔ l % n = n - 1 := by
  have hl := Nat.mod_lt l hn
  constructor
  · intro h
    have := (h (n - 1) (by omega)).mpr (hall _ (by omega))
    omega
  · intro h t ht
    exact iff_of_true (by omega) (hall t ht)

theorem mod_eq_pred_iff {l : Nat} (hn : 0 < n) : l % n = n - 1 ↔ (l + 1) % n = 0 := by
  have hl := Nat.mod_lt l hn
  rw [← Nat.mod_add_mod]
  constructor
  · intro h
    rw [h, Nat.sub_add_cancel hn, Nat.mod_self]
  · intro h
    by_contra hne
    rw [Nat.mod_eq_of_lt (by omega)] at h
    omega

theorem windowIsInitial_iff_of_le (hn : 0 < n) (hs : 0 < s) (hw : v + s ≤ w) :
    WindowIsInitial w n v s ↔ (s < n ∧ v % n = 0) ∨ (n ≤ s ∧ (v + s) % n = 0) := by
  have hmod : ∀ i < s, (v + i) % w = v + i := fun i hi => Nat.mod_eq_of_lt (by omega)
  have hwin : ∀ t, InWindow w n v s t ↔ ∃ i < s, (v + i) % n = t := by
    intro t
    constructor
    · rintro ⟨i, hi, hit⟩
      exact ⟨i, hi, by rwa [hmod i hi] at hit⟩
    · rintro ⟨i, hi, hit⟩
      exact ⟨i, hi, by rwa [hmod i hi]⟩
  have hv := Nat.mod_lt v hn
  rw [WindowIsInitial, hmod (s - 1) (by omega)]
  rcases Nat.lt_or_ge s n with hsn | hsn
  · rw [or_iff_left (fun h => absurd h.1 (by omega)), and_iff_right hsn]
    have hlast := add_mod_of_lt (x := v) (show s - 1 < n by omega)
    constructor
    · intro h
      by_contra hv0
      -- the first residue of the window is not 0; either 0 is missing or the window has gone round
      have hfirst := (h (v % n) hv).mpr ((hwin _).mpr ⟨0, hs, rfl⟩)
      have hzero := (hwin 0).mp ((h 0 hn).mp (Nat.zero_le _))
      obtain ⟨i, hi, hi0⟩ := hzero
      rw [add_mod_of_lt (show i < n by omega)] at hi0
      rw [hlast] at hfirst
      split at hi0 <;> split at hfirst <;> omega
    · intro hv0 t ht
      rw [hwin, hlast, hv0, Nat.zero_add, if_pos (by omega)]
      constructor
      · intro hts
        refine ⟨t, by omega, ?_⟩
        rw [add_mod_of_lt ht, hv0, Nat.zero_add, if_pos ht]
      · rintro ⟨i, hi, rfl⟩
        rw [add_mod_of_lt (show i < n by omega), hv0, Nat.zero_add, if_pos (by omega)]
        omega
  · rw [or_iff_right (fun h => absurd h.1 (by omega)), and_iff_right hsn]
    have hall : ∀ t < n, InWindow w n v s t := fun t ht => (hwin t).mpr (exists_add_mod hsn ht)
    have hlast : (v + s) % n = 0 ↔ (v + (s - 1)) % n = n - 1 := by
      rw [mod_eq_pred_iff hn, show v + (s - 1) + 1 = v + s by omega]
    rw [hlast]
    exact last_iff hn hall

/-! ## Words that wrap -/

theorem sub_mod_of_le {j : Nat} (hj : j ≤ w % n) : (w - j) % n = w % n - j := by
  rcases Nat.eq_zero_or_pos n with rfl | hn
  · simp
  have hdiv := Nat.div_add_mod w n
  have hlt := Nat.mod_lt w hn
  have hsub : w - j = (w % n - j) + n * (w / n) := by omega
  rw [hsub, Nat.add_mul_mod_self_left, Nat.mod_eq_of_lt (by omega)]

/-- The word that is one short of a multiple of `n`. -/
theorem sub_mod_add_one (hn : 0 < n) (hnw : n ≤ w) : (w - (w % n + 1)) % n = n - 1 := by
  have hdiv := Nat.div_add_mod w n
  obtain ⟨q, hq⟩ : ∃ q, w / n = q + 1 := ⟨w / n - 1, by have := Nat.div_pos hnw hn; omega⟩
  have hsub : w - (w % n + 1) = n - 1 + n * q := by
    rw [hq, Nat.mul_succ] at hdiv
    omega
  rw [hsub, Nat.add_mul_mod_self_left, Nat.mod_eq_of_lt (by omega)]

theorem add_mod_of_wrap {i : Nat} (hi : w ≤ v + i) (hlt : v + i < w + w) : (v + i) % w = v + i - w := by
  rw [Nat.mod_eq_sub_mod hi, Nat.mod_eq_of_lt (by omega)]

/-- The words behind the wrap start at 0. -/
theorem inWindow_of_lt (hv : v < w) (hs : s ≤ w) (hw : w < v + s) (ht : t < n)
    (hts : t < v + s - w) : InWindow w n v s t := by
  refine ⟨w - v + t, by omega, ?_⟩
  rw [add_mod_of_wrap (by omega) (by omega), show v + (w - v + t) - w = t by omega,
    Nat.mod_eq_of_lt ht]

theorem windowIsInitial_iff_of_lt (hn : 0 < n) (hv : v < w) (hs : s ≤ w) (hw : w < v + s) :
    WindowIsInitial w n v s ↔ (n ≤ v + s - w ∧ (v + s - w) % n = 0) ∨
      (v + s - w < n ∧ w - v ≤ w % n ∧ w % n ≤ v + s - w) := by
  have hlow : ∀ i, v + i < w → (v + i) % w = v + i := fun i hi => Nat.mod_eq_of_lt hi
  rw [WindowIsInitial, add_mod_of_wrap (show w ≤ v + (s - 1) by omega) (by omega)]
  rcases Nat.lt_or_ge (v + s - w) n with hr | hr
  · rw [or_iff_right (fun h => absurd h.1 (by omega)), and_iff_right hr,
      Nat.mod_eq_of_lt (show v + (s - 1) - w < n by omega)]
    have hlt := Nat.mod_lt w hn
    constructor
    · intro h
      -- every residue before the wrap lies in the range
      have hbefore : ∀ j, 0 < j → j ≤ w - v → (w - j) % n ≤ v + (s - 1) - w := by
        intro j hj hjv
        refine (h _ (Nat.mod_lt _ hn)).mpr ⟨w - v - j, by omega, ?_⟩
        rw [hlow _ (by omega), show v + (w - v - j) = w - j by omega]
      have hle : w - v ≤ w % n := by
        by_contra hgt
        -- the word that is one short of a multiple of `n` comes before the wrap
        have hnw : n ≤ w := by
          by_contra hwn
          rw [Nat.mod_eq_of_lt (by omega)] at hgt
          omega
        have hb := hbefore (w % n + 1) (by omega) (by omega)
        rw [sub_mod_add_one hn hnw] at hb
        omega
      have hb := hbefore 1 Nat.one_pos (by omega)
      rw [sub_mod_of_le (by omega)] at hb
      exact ⟨hle, by omega⟩
    · rintro ⟨hle, hge⟩ t ht
      constructor
      · intro htl
        exact inWindow_of_lt hv hs hw ht (by omega)
      · rintro ⟨i, hi, rfl⟩
        by_cases hwi : v + i < w
        · rw [hlow i hwi, show v + i = w - (w - (v + i)) by omega, sub_mod_of_le (by omega)]
          omega
        · rw [add_mod_of_wrap (by omega) (by omega), Nat.mod_eq_of_lt (by omega)]
          omega
  · rw [or_iff_left (fun h => absurd h.1 (by omega)), and_iff_right hr]
    have hall : ∀ t < n, InWindow w n v s t :=
      fun t ht => inWindow_of_lt hv hs hw ht (by omega)
    rw [last_iff hn hall, mod_eq_pred_iff hn, show v + (s - 1) - w + 1 = v + s - w by omega]

end Xmap.Lib
