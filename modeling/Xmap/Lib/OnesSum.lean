import Mathlib.Data.Nat.ModEq
import Mathlib.Tactic

/-!
# Ones' complement sums

Words up to `n` are added with an end-around carry: the sum is that of the words modulo `n`, and zero only
for zeros. The internet checksum sums words of two bytes, and a sum that is all ones is so in either byte
order.
-/

namespace Xmap.Lib

section
variable {n a b s : Nat} {ws : List Nat}

/-! ## Words -/

/-- The sum of two words, with the carry added at the low end. -/
def onesAdd (n a b : Nat) : Nat := if a + b ≤ n then a + b else a + b - n

def onesSum (n : Nat) (ws : List Nat) : Nat := ws.foldl (onesAdd n) 0

theorem onesAdd_le (ha : a ≤ n) (hb : b ≤ n) : onesAdd n a b ≤ n := by
  unfold onesAdd
  split <;> omega

theorem onesAdd_modEq : onesAdd n a b ≡ a + b [MOD n] := by
  by_cases h : a + b ≤ n
  · rw [onesAdd, if_pos h]
  · rw [onesAdd, if_neg h]
    exact (Nat.modEq_iff_dvd' (Nat.sub_le _ _)).mpr ⟨1, by omega⟩

theorem onesAdd_eq_zero_iff : onesAdd n a b = 0 ↔ a + b = 0 := by
  by_cases h : a + b ≤ n
  · rw [onesAdd, if_pos h]
  · rw [onesAdd, if_neg h]
    omega

theorem foldl_onesAdd_le (ha : a ≤ n) (h : ∀ w ∈ ws, w ≤ n) : ws.foldl (onesAdd n) a ≤ n := by
  induction ws generalizing a with
  | nil => exact ha
  | cons w ws ih =>
    apply ih
    · exact onesAdd_le ha (h w List.mem_cons_self)
    · exact fun v hv => h v (List.mem_cons_of_mem _ hv)

theorem foldl_onesAdd_modEq : ws.foldl (onesAdd n) a ≡ a + ws.sum [MOD n] := by
  induction ws generalizing a with
  | nil => rfl
  | cons w ws ih =>
    have hw : onesAdd n a w + ws.sum ≡ a + w + ws.sum [MOD n] := onesAdd_modEq.add_right _
    rw [List.foldl_cons, List.sum_cons, ← Nat.add_assoc]
    exact ih.trans hw

theorem foldl_onesAdd_eq_zero_iff : ws.foldl (onesAdd n) a = 0 ↔ a + ws.sum = 0 := by
  induction ws generalizing a with
  | nil => simp
  | cons w ws ih =>
    have hw := onesAdd_eq_zero_iff (n := n) (a := a) (b := w)
    rw [List.foldl_cons, ih, List.sum_cons]
    omega

theorem onesSum_eq_max_iff (hn : 0 < n) (h : ∀ w ∈ ws, w ≤ n) :
    onesSum n ws = n ↔ n ∣ ws.sum ∧ ws.sum ≠ 0 := by
  have hmod : onesSum n ws ≡ ws.sum [MOD n] := by simpa [onesSum] using foldl_onesAdd_modEq (a := 0)
  have hzero : onesSum n ws = 0 ↔ ws.sum = 0 := by
    simpa [onesSum] using foldl_onesAdd_eq_zero_iff (a := 0)
  have hle : onesSum n ws ≤ n := foldl_onesAdd_le (Nat.zero_le n) h
  constructor
  · intro hmax
    refine ⟨(hmod.dvd_iff dvd_rfl).mp (dvd_of_eq hmax.symm), ?_⟩
    omega
  · rintro ⟨hdvd, hne⟩
    have hdvd' : n ∣ onesSum n ws := (hmod.dvd_iff dvd_rfl).mpr hdvd
    exact Nat.le_antisymm hle (Nat.le_of_dvd (Nat.pos_of_ne_zero (mt hzero.mp hne)) hdvd')

/-! ## Folding carries into a word -/

def foldCarry (n s : Nat) : Nat := s / (n + 1) + s % (n + 1)

theorem foldCarry_modEq : foldCarry n s ≡ s [MOD n] := by
  have hs : s = foldCarry n s + n * (s / (n + 1)) := by
    have := Nat.div_add_mod s (n + 1)
    rw [Nat.add_mul] at this
    rw [foldCarry]
    omega
  exact ((Nat.modEq_iff_dvd' (by omega)).mpr ⟨s / (n + 1), by omega⟩)

/-- A sum of no more words than a word counts needs to be folded only twice. -/
theorem foldCarry_foldCarry_le (h : s < (n + 1) * (n + 1)) : foldCarry n (foldCarry n s) ≤ n := by
  have hq : s / (n + 1) < n + 1 := Nat.div_lt_of_lt_mul h
  have hr : s % (n + 1) < n + 1 := Nat.mod_lt _ (Nat.succ_pos n)
  have ht : foldCarry n s ≤ 2 * n := by
    rw [foldCarry]
    omega
  generalize foldCarry n s = t at ht
  have hdiv : t / (n + 1) ≤ 1 := by
    rw [← Nat.lt_succ_iff]
    exact Nat.div_lt_of_lt_mul (by omega)
  have hsplit := Nat.div_add_mod t (n + 1)
  have hmod : t % (n + 1) < n + 1 := Nat.mod_lt _ (Nat.succ_pos n)
  rw [foldCarry]
  rcases Nat.le_one_iff_eq_zero_or_eq_one.mp hdiv with h0 | h1
  · rw [h0]
    omega
  · rw [h1, Nat.mul_one] at hsplit
    omega

end

/-! ## Words of two bytes -/

/-- The words in network byte order; a last single byte is padded with zeros. -/
def beWords : List UInt8 → List Nat
  | [] => []
  | [b] => [256 * b.toNat]
  | b :: c :: bs => (256 * b.toNat + c.toNat) :: beWords bs

def leWords : List UInt8 → List Nat
  | [] => []
  | [b] => [b.toNat]
  | b :: c :: bs => (b.toNat + 256 * c.toNat) :: leWords bs

theorem leWords_append (bs cs : List UInt8) (h : bs.length % 2 = 0) :
    leWords (bs ++ cs) = leWords bs ++ leWords cs := by
  induction bs using leWords.induct with
  | case1 => rfl
  | case2 b => simp at h
  | case3 b c bs ih =>
    have hbs : bs.length % 2 = 0 := by simpa [Nat.add_assoc] using h
    simp [leWords, ih hbs]

theorem beWords_le (bs : List UInt8) : ∀ w ∈ beWords bs, w ≤ 0xFFFF := by
  induction bs using beWords.induct with
  | case1 => simp [beWords]
  | case2 b =>
    have := b.toNat_lt
    simp [beWords]
    omega
  | case3 b c bs ih =>
    have hb := b.toNat_lt
    have hc := c.toNat_lt
    simp only [beWords, List.forall_mem_cons]
    exact ⟨by omega, ih⟩

/-- The other byte order multiplies the sum by 256. -/
theorem leWords_sum_modEq (bs : List UInt8) :
    (leWords bs).sum ≡ 256 * (beWords bs).sum [MOD 0xFFFF] := by
  induction bs using leWords.induct with
  | case1 => rfl
  | case2 b =>
    simp only [leWords, beWords, List.sum_singleton, Nat.ModEq]
    omega
  | case3 b c bs ih =>
    simp only [leWords, beWords, List.sum_cons, Nat.ModEq] at ih ⊢
    omega

theorem leWords_sum_eq_zero_iff (bs : List UInt8) : (leWords bs).sum = 0 ↔ (beWords bs).sum = 0 := by
  induction bs using leWords.induct with
  | case1 => rfl
  | case2 b => simp [leWords, beWords]
  | case3 b c bs ih =>
    simp only [leWords, beWords, List.sum_cons]
    omega

/-- The sum of the internet checksum. -/
def inetSum (bs : List UInt8) : Nat := onesSum 0xFFFF (beWords bs)

theorem inetSum_eq_max_iff (bs : List UInt8) :
    inetSum bs = 0xFFFF ↔ 0xFFFF ∣ (leWords bs).sum ∧ (leWords bs).sum ≠ 0 := by
  have hcop : Nat.Coprime 0xFFFF 256 := by decide
  have hdvd : 0xFFFF ∣ (leWords bs).sum ↔ 0xFFFF ∣ (beWords bs).sum :=
    ((leWords_sum_modEq bs).dvd_iff dvd_rfl).trans hcop.dvd_mul_left
  rw [inetSum, onesSum_eq_max_iff (by decide) (beWords_le bs), hdvd, ne_eq, ne_eq, leWords_sum_eq_zero_iff]

-- the header of a datagram of 115 bytes, with its checksum b861
example : inetSum [0x45, 0, 0, 0x73, 0, 0, 0x40, 0, 0x40, 0x11, 0xb8, 0x61, 0xc0, 0xa8, 0, 1, 0xc0, 0xa8, 0,
    0xc7] = 0xFFFF := by decide

end Xmap.Lib
