import Mathlib.Data.List.DropRight
import Mathlib.Data.Nat.Digits.Lemmas
import Xmap.Thread.CoreMask

/-!
# Theorems on the core mask

The bits of the last digit that is read may lie beyond the last core. They are not looked at.
-/

namespace Xmap.Thread

/-- A hexadecimal digit. -/
def hexDigit (c : Char) : Option Nat :=
  if 48 ≤ c.toNat ∧ c.toNat ≤ 57 then some (c.toNat - 48)
  else if 97 ≤ c.toNat ∧ c.toNat ≤ 102 then some (c.toNat - 87)
  else if 65 ≤ c.toNat ∧ c.toNat ≤ 70 then some (c.toNat - 55)
  else none

/-- The mask without the blanks around it and the prefix. -/
def stripMask (coremask : List Char) : List Char :=
  (stripHexPrefix (coremask.dropWhile isblank)).rdropWhile isblank

/-- The value of the mask where it is a hexadecimal numeral. -/
def maskValue (coremask : List Char) : Option Nat :=
  if stripMask coremask = [] then none
  else ((stripMask coremask).reverse.mapM hexDigit).map (Nat.ofDigits 16)

/-- The mask is accepted, and enables cores, as its value says. -/
structure MaskParsed (n : Nat) (coremask : List Char) : Prop where
  accepted : (parseCoremaskLoops n coremask).isSome = true ↔
    ∃ v, maskValue coremask = some v ∧ v ≠ 0 ∧ ∀ i, n ≤ i → v.testBit i = false
  enabled : ∀ s v, parseCoremaskLoops n coremask = some s → maskValue coremask = some v →
    s.enabled.length = n ∧ ∀ i < n, s.enabled[i]? = some (v.testBit i)
  count : ∀ s v, parseCoremaskLoops n coremask = some s → maskValue coremask = some v →
    s.count = (List.range n).countP v.testBit

/-- If the mask is a numeral, it has no bit beyond the cores, or one in a digit beyond the cores, or none
for a core. -/
def MaskFits (n : Nat) (coremask : List Char) : Prop :=
  ∀ v, maskValue coremask = some v → v < 2 ^ n ∨ 2 ^ (4 * ((n + 3) / 4)) ≤ v ∨ v % 2 ^ n = 0

section
variable {n : Nat} {c : Char} {coremask digits : List Char} {vs : List Nat}

/-! ## Digits -/

theorem hexDigit_eq (c : Char) : hexDigit c = if isxdigit c then some (xdigit2val c) else none := by
  have hdigit : c.isDigit = true ↔ 48 ≤ c.toNat ∧ c.toNat ≤ 57 := Char.isDigit_iff_toNat
  have hupper : c.isUpper = true ↔ 65 ≤ c.toNat ∧ c.toNat ≤ 90 := by
    delta Char.isUpper
    simp [UInt32.le_iff_toNat_le]
  have hlow : 'a' ≤ c ∧ c ≤ 'f' ↔ 97 ≤ c.toNat ∧ c.toNat ≤ 102 := by
    simp [Char.le_def, UInt32.le_iff_toNat_le]
  have hhigh : 'A' ≤ c ∧ c ≤ 'F' ↔ 65 ≤ c.toNat ∧ c.toNat ≤ 70 := by
    simp [Char.le_def, UInt32.le_iff_toNat_le]
  have hx : isxdigit c = true ↔ (48 ≤ c.toNat ∧ c.toNat ≤ 57) ∨ (97 ≤ c.toNat ∧ c.toNat ≤ 102) ∨
      (65 ≤ c.toNat ∧ c.toNat ≤ 70) := by
    rw [isxdigit, Bool.or_eq_true, Bool.or_eq_true, Bool.and_eq_true, Bool.and_eq_true,
      decide_eq_true_eq, decide_eq_true_eq, decide_eq_true_eq, decide_eq_true_eq, hdigit, hlow, hhigh,
      or_assoc]
  simp only [hexDigit, xdigit2val, hx, hdigit, hupper]
  generalize c.toNat = m
  split_ifs <;> first | rfl | omega | (congr 1; omega)

theorem hexDigit_lt {d : Nat} (h : hexDigit c = some d) : d < 16 := by
  rw [hexDigit] at h
  split_ifs at h <;>
  · have hd := Option.some.inj h
    omega

theorem hexDigit_eq_zero_iff {d : Nat} (h : hexDigit c = some d) : c = '0' ↔ d = 0 := by
  constructor
  · rintro rfl
    exact (Option.some.inj h).symm
  · rintro rfl
    rw [hexDigit] at h
    have hc : c.toNat = '0'.toNat := by
      split_ifs at h <;>
      · have hd := Option.some.inj h
        simp
        omega
    exact Char.toNat_inj.mp hc

theorem mapM_hexDigit_nil (h : ([] : List Char).mapM hexDigit = some vs) : vs = [] := by
  rw [List.mapM_nil] at h
  exact (Option.some.inj h).symm

theorem mapM_hexDigit_cons (h : (c :: digits).mapM hexDigit = some vs) :
    ∃ d vs', hexDigit c = some d ∧ digits.mapM hexDigit = some vs' ∧ vs = d :: vs' := by
  rw [List.mapM_cons] at h
  obtain ⟨d, hd, h⟩ := Option.bind_eq_some_iff.mp h
  obtain ⟨vs', hvs, h⟩ := Option.bind_eq_some_iff.mp h
  exact ⟨d, vs', hd, hvs, (Option.some.inj h).symm⟩

theorem all_zero_iff (h : digits.mapM hexDigit = some vs) :
    digits.all (· == '0') = true ↔ Nat.ofDigits 16 vs = 0 := by
  induction digits generalizing vs with
  | nil =>
    obtain rfl := mapM_hexDigit_nil h
    exact ⟨fun _ => rfl, fun _ => rfl⟩
  | cons c digits ih =>
    obtain ⟨d, vs, hd, hvs, rfl⟩ := mapM_hexDigit_cons h
    have hc := hexDigit_eq_zero_iff hd
    rw [List.all_cons, Bool.and_eq_true, beq_iff_eq, hc, ih hvs, Nat.ofDigits_cons]
    omega

/-! ## Bits -/

/-- The bits of a digit and those of the digits above it. -/
theorem bits_digit {d : Nat} (hd : d < 16) (v n : Nat) :
    ((List.range 4).map d.testBit).take (n + 1) ++ (List.range (n + 1 - 4)).map v.testBit =
      (List.range (n + 1)).map (d + 16 * v).testBit := by
  have hbit (i : Nat) : (d + 16 * v).testBit i = if i < 4 then d.testBit i else v.testBit (i - 4) := by
    have hpow : d < 2 ^ 4 := hd
    rw [add_comm]
    exact Nat.testBit_two_pow_mul_add v hpow i
  have htake : ((List.range 4).map d.testBit).take (n + 1) =
      (List.range (min (n + 1) 4)).map (d + 16 * v).testBit := by
    rw [← List.map_take, List.take_range]
    refine List.map_congr_left fun i hi => ?_
    rw [hbit, if_pos (by have := List.mem_range.mp hi; omega)]
  have hrest : (List.range (n + 1 - 4)).map v.testBit =
      (List.range (n + 1 - 4)).map fun i => (d + 16 * v).testBit (min (n + 1) 4 + i) := by
    refine List.map_congr_left fun i hi => ?_
    have hmin : min (n + 1) 4 = 4 := by
      have := List.mem_range.mp hi
      omega
    rw [hmin, hbit, if_neg (by omega), Nat.add_sub_cancel_left]
  have hrange : List.range (n + 1) =
      List.range (min (n + 1) 4) ++ (List.range (n + 1 - 4)).map (min (n + 1) 4 + ·) := by
    rw [← List.range_add]
    exact congrArg List.range (by omega)
  rw [htake, hrest, hrange, List.map_append, List.map_map]
  rfl

/-- The digits of a numeral. Those beyond the cores have to be 0. -/
theorem parseDigits_of_digits (h : digits.mapM hexDigit = some vs) (n : Nat) :
    parseDigits n digits =
      if Nat.ofDigits 16 vs < 16 ^ ((n + 3) / 4) then
        some ((List.range n).map (Nat.ofDigits 16 vs).testBit)
      else none := by
  induction digits generalizing n vs with
  | nil =>
    obtain rfl := mapM_hexDigit_nil h
    cases n with
    | zero => rfl
    | succ n =>
      have hpos : 0 < 16 ^ ((n + 1 + 3) / 4) := Nat.pow_pos (by decide)
      have hbits : (List.range (n + 1)).map (Nat.testBit 0) = List.replicate (n + 1) false := by
        simp [List.eq_replicate_iff]
      rw [parseDigits, Nat.ofDigits_nil, if_pos hpos, hbits]
  | cons c digits ih =>
    cases n with
    | zero =>
      have hzero := all_zero_iff h
      have hlt : Nat.ofDigits 16 vs < 16 ^ ((0 + 3) / 4) ↔ Nat.ofDigits 16 vs = 0 := Nat.lt_one_iff
      rw [parseDigits]
      by_cases hall : (c :: digits).all (· == '0') = true
      · rw [if_pos hall, if_pos (hlt.mpr (hzero.mp hall)), List.range_zero, List.map_nil]
      · rw [if_neg hall, if_neg (mt (hzero.mpr ∘ hlt.mp) hall)]
    | succ n =>
      obtain ⟨d, vs, hd, hvs, rfl⟩ := mapM_hexDigit_cons h
      have hx : isxdigit c = true ∧ xdigit2val c = d := by
        rw [hexDigit_eq] at hd
        by_cases hx : isxdigit c = true
        · rw [if_pos hx] at hd
          exact ⟨hx, Option.some.inj hd⟩
        · rw [if_neg hx] at hd
          exact absurd hd.symm (Option.some_ne_none d)
      have hlt := hexDigit_lt hd
      have hquot : (n + 1 + 3) / 4 = (n + 1 - 4 + 3) / 4 + 1 := by omega
      have hbound : d + 16 * Nat.ofDigits 16 vs < 16 ^ ((n + 1 + 3) / 4) ↔
          Nat.ofDigits 16 vs < 16 ^ ((n + 1 - 4 + 3) / 4) := by
        rw [hquot, pow_succ]
        omega
      rw [parseDigits, if_pos hx.1, hx.2, ih hvs, Nat.ofDigits_cons]
      simp only [hbound]
      by_cases hsmall : Nat.ofDigits 16 vs < 16 ^ ((n + 1 - 4 + 3) / 4)
      · rw [if_pos hsmall, if_pos hsmall, Option.map_some, bits_digit hlt]
      · rw [if_neg hsmall, if_neg hsmall, Option.map_none]

theorem parseDigits_of_none (h : digits.mapM hexDigit = none) (n : Nat) : parseDigits n digits = none := by
  induction digits generalizing n with
  | nil =>
    rw [List.mapM_nil] at h
    exact absurd h (Option.some_ne_none _)
  | cons c digits ih =>
    have hrest : hexDigit c = none ∨ digits.mapM hexDigit = none := by
      rw [List.mapM_cons] at h
      cases hc : hexDigit c with
      | none => exact Or.inl rfl
      | some d =>
        cases hds : digits.mapM hexDigit with
        | none => exact Or.inr rfl
        | some vs =>
          rw [hc, hds] at h
          exact absurd h (Option.some_ne_none _)
    have hzero : hexDigit '0' = some 0 := by decide
    cases n with
    | zero =>
      rw [parseDigits, if_neg]
      rw [List.all_eq_true]
      intro hall
      have hc : c = '0' := eq_of_beq (hall c List.mem_cons_self)
      have hds : ∀ d ∈ digits, d = '0' := fun d hd => eq_of_beq (hall d (List.mem_cons_of_mem c hd))
      rcases hrest with hnone | hnone
      · rw [hc, hzero] at hnone
        exact absurd hnone (Option.some_ne_none _)
      · have hall0 := ih hnone 0
        rw [parseDigits, if_pos (List.all_eq_true.mpr fun d hd => beq_iff_eq.mpr (hds d hd))] at hall0
        exact absurd hall0 (Option.some_ne_none _)
    | succ n =>
      rw [parseDigits]
      by_cases hx : isxdigit c = true
      · rw [if_pos hx]
        rcases hrest with hnone | hnone
        · rw [hexDigit_eq, if_pos hx] at hnone
          exact absurd hnone (Option.some_ne_none _)
        · rw [ih hnone, Option.map_none]
      · rw [if_neg hx]

/-! ## Masks -/

theorem any_testBit (v n : Nat) : ((List.range n).map v.testBit).any id = true ↔ v % 2 ^ n ≠ 0 := by
  rw [List.any_map, List.any_eq_true]
  constructor
  · rintro ⟨i, hi, hbit⟩ hzero
    have hmod := Nat.testBit_mod_two_pow v n i
    rw [hzero, Nat.zero_testBit, decide_eq_true (List.mem_range.mp hi), Bool.true_and] at hmod
    exact Bool.false_ne_true (hmod.trans hbit)
  · intro hne
    by_contra hnone
    refine hne (Nat.zero_of_testBit_eq_false fun i => ?_)
    rw [Nat.testBit_mod_two_pow]
    by_cases hi : i < n
    · have hbit : v.testBit i = false :=
        Bool.eq_false_iff.mpr fun h => hnone ⟨i, List.mem_range.mpr hi, h⟩
      rw [hbit, Bool.and_false]
    · rw [decide_eq_false hi, Bool.false_and]

theorem maskValue_eq (coremask : List Char) :
    maskValue coremask =
      if (stripHexPrefix (coremask.dropWhile isblank)).reverse.dropWhile isblank = [] then none
      else (((stripHexPrefix (coremask.dropWhile isblank)).reverse.dropWhile isblank).mapM hexDigit).map
        (Nat.ofDigits 16) := by
  have hrev : (stripMask coremask).reverse =
      (stripHexPrefix (coremask.dropWhile isblank)).reverse.dropWhile isblank := by
    rw [stripMask, List.rdropWhile, List.reverse_reverse]
  have hnil : stripMask coremask = [] ↔
      (stripHexPrefix (coremask.dropWhile isblank)).reverse.dropWhile isblank = [] := by
    rw [← hrev, List.reverse_eq_nil_iff]
  simp only [maskValue, hnil, hrev]

/-- What the loops make of a mask. -/
theorem parseCoremaskLoops_cases (n : Nat) (coremask : List Char) :
    parseCoremaskLoops n coremask =
      match maskValue coremask with
      | none => none
      | some v =>
        if v < 2 ^ (4 * ((n + 3) / 4)) ∧ v % 2 ^ n ≠ 0 then
          some ⟨(List.range n).map v.testBit, (List.range n).countP v.testBit⟩
        else none := by
  rw [parseCoremaskLoops_eq, parseCoremask, maskValue_eq]
  generalize (stripHexPrefix (coremask.dropWhile isblank)).reverse.dropWhile isblank = digits
  by_cases hnil : digits = []
  · rw [if_pos hnil, if_pos hnil]
    rfl
  · rw [if_neg hnil, if_neg hnil]
    cases hvs : digits.mapM hexDigit with
    | none =>
      rw [parseDigits_of_none hvs]
      rfl
    | some vs =>
      have hpow : 2 ^ (4 * ((n + 3) / 4)) = 16 ^ ((n + 3) / 4) := pow_mul 2 4 _
      rw [parseDigits_of_digits hvs, Option.map_some, hpow]
      dsimp only
      by_cases hlt : Nat.ofDigits 16 vs < 16 ^ ((n + 3) / 4)
      · rw [if_pos hlt]
        dsimp only
        by_cases hany : ((List.range n).map (Nat.ofDigits 16 vs).testBit).any id = true
        · have hcount : ((List.range n).map (Nat.ofDigits 16 vs).testBit).count true =
              (List.range n).countP (Nat.ofDigits 16 vs).testBit := by
            rw [List.count, List.countP_map]
            exact List.countP_congr fun i _ => by simp
          rw [if_pos hany, if_pos ⟨hlt, (any_testBit _ n).mp hany⟩, Option.map_some, hcount]
        · rw [if_neg hany, if_neg fun hc => hany ((any_testBit _ n).mpr hc.2), Option.map_none]
      · rw [if_neg hlt, if_neg fun hc => hlt hc.1, Option.map_none]

/-- A mask is accepted by its value, and enables the cores of its bits, exactly when no bit of the last
digit that is read lies beyond the cores, unless the mask is rejected for another digit or for having no
core. -/
theorem parseCoremaskLoops_maskParsed_iff (n : Nat) (coremask : List Char) :
    MaskParsed n coremask ↔ MaskFits n coremask := by
  have hcases := parseCoremaskLoops_cases n coremask
  have hbits (v : Nat) : (∀ i, n ≤ i → v.testBit i = false) ↔ v < 2 ^ n :=
    ⟨fun h => Nat.lt_pow_two_of_testBit v h, fun h i hi =>
      Nat.testBit_lt_two_pow (h.trans_le (Nat.pow_le_pow_right (by decide) hi))⟩
  constructor
  · intro hp v hv
    rw [hv] at hcases
    dsimp only at hcases
    by_contra hnot
    obtain ⟨hge, hlt, hne⟩ : ¬ v < 2 ^ n ∧ v < 2 ^ (4 * ((n + 3) / 4)) ∧ v % 2 ^ n ≠ 0 := by omega
    rw [if_pos ⟨hlt, hne⟩] at hcases
    obtain ⟨w, hw, _, hbeyond⟩ := hp.accepted.mp (by rw [hcases]; rfl)
    obtain rfl := Option.some.inj (hv.symm.trans hw)
    exact hge ((hbits v).mp hbeyond)
  · intro hf
    refine ⟨?_, ?_, ?_⟩
    · cases hv : maskValue coremask with
      | none =>
        rw [hv] at hcases
        rw [hcases]
        simp
      | some v =>
        rw [hv] at hcases
        dsimp only at hcases
        have hfits := hf v hv
        have hle : 2 ^ n ≤ 2 ^ (4 * ((n + 3) / 4)) := Nat.pow_le_pow_right (by decide) (by omega)
        have hmod : v < 2 ^ n → v % 2 ^ n = v := Nat.mod_eq_of_lt
        have hzero : v % 2 ^ n ≠ 0 → v ≠ 0 := by
          rintro hne rfl
          exact hne (Nat.zero_mod _)
        constructor
        · intro hsome
          refine ⟨v, rfl, ?_, (hbits v).mpr ?_⟩ <;>
          · by_cases hc : v < 2 ^ (4 * ((n + 3) / 4)) ∧ v % 2 ^ n ≠ 0
            · have := hzero hc.2
              omega
            · rw [hcases, if_neg hc] at hsome
              exact absurd hsome Bool.false_ne_true
        · rintro ⟨w, hw, hne, hbeyond⟩
          obtain rfl := Option.some.inj hw
          have hlt := (hbits v).mp hbeyond
          rw [hcases, if_pos ⟨hlt.trans_le hle, by rwa [hmod hlt]⟩]
          rfl
    · intro s v hs hv
      rw [hv] at hcases
      dsimp only at hcases
      rw [hs] at hcases
      by_cases hc : v < 2 ^ (4 * ((n + 3) / 4)) ∧ v % 2 ^ n ≠ 0
      · rw [if_pos hc] at hcases
        rw [Option.some.inj hcases]
        exact ⟨by simp, fun i hi => by simp [hi]⟩
      · rw [if_neg hc] at hcases
        exact absurd hcases (Option.some_ne_none s)
    · intro s v hs hv
      rw [hv] at hcases
      dsimp only at hcases
      rw [hs] at hcases
      by_cases hc : v < 2 ^ (4 * ((n + 3) / 4)) ∧ v % 2 ^ n ≠ 0
      · rw [if_pos hc] at hcases
        rw [Option.some.inj hcases]
      · rw [if_neg hc] at hcases
        exact absurd hcases (Option.some_ne_none s)

end

/-- Of a machine of two cores, the mask for three is accepted. -/
theorem parseCoremaskLoops_beyond : ¬ MaskParsed 2 "7".toList := by
  have hv : maskValue "7".toList = some 7 := by decide
  have hs : (parseCoremaskLoops 2 "7".toList).isSome = true := by
    rw [parseCoremaskLoops_cases, hv]
    decide
  intro hp
  obtain ⟨v, hw, _, hbeyond⟩ := hp.accepted.mp hs
  obtain rfl := Option.some.inj (hv.symm.trans hw)
  exact absurd (hbeyond 2 le_rfl) (by decide)

end Xmap.Thread
