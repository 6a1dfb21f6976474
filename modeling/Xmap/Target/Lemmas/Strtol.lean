import Xmap.Target.Wblist

/-!
# What `strtol` makes of a numeral

Digits, with a minus sign before them or not, and then a character that is none, or the end.
-/

namespace Xmap.Target

/-- The value of a string of decimal digits. -/
def decimalValue (ds : CStr) : Nat := ds.foldl (fun n c => n * 10 + (c.toNat - '0'.toNat)) 0

/-- The value of a `long` for an integer. -/
def clampLong (v : Int) : Int := max (-2 ^ 63) (min v (2 ^ 63 - 1))

section
variable {c : Char} {ds rest : CStr}

theorem isSpace_of_isDigit (h : c.isDigit = true) : isSpace c = false := by
  cases hs : isSpace c with
  | false => rfl
  | true =>
    simp only [isSpace, Bool.or_eq_true, beq_iff_eq] at hs
    rcases hs with ((((rfl | rfl) | rfl) | rfl) | rfl) | rfl <;> exact absurd h (by decide)

theorem takeWhile_digits (hd : ∀ c ∈ ds, c.isDigit = true) (hrest : rest.takeWhile Char.isDigit = []) :
    (ds ++ rest).takeWhile Char.isDigit = ds := by
  rw [List.takeWhile_append_of_pos hd, hrest, List.append_nil]

/-- `strtol` behind the blanks and the sign. -/
def signedDigits (neg : Bool) (s : CStr) : Strtol :=
  let ds := s.takeWhile Char.isDigit
  let v : Int := if neg then -(decimalValue ds : Int) else decimalValue ds
  if ds.isEmpty then { value := 0, converted := false, erange := false }
  else if v > 2 ^ 63 - 1 then { value := 2 ^ 63 - 1, converted := true, erange := true }
  else if v < -2 ^ 63 then { value := -2 ^ 63, converted := true, erange := true }
  else { value := v, converted := true, erange := false }

theorem strtol_minus (s : CStr) : strtol ('-' :: s) = signedDigits true s := by
  rw [strtol, List.dropWhile_cons_of_neg (by decide)]
  rfl

theorem strtol_of_digit (hc : c.isDigit = true) (s : CStr) :
    strtol (c :: s) = signedDigits false (c :: s) := by
  have hspace : ¬ isSpace c = true := Bool.eq_false_iff.mp (isSpace_of_isDigit hc)
  rw [strtol, List.dropWhile_cons_of_neg hspace]
  split
  next neg s' heq =>
    split at heq
    · next h =>
      obtain ⟨rfl, _⟩ := List.cons.inj h
      exact absurd hc (by decide)
    · next h =>
      obtain ⟨rfl, _⟩ := List.cons.inj h
      exact absurd hc (by decide)
    · obtain ⟨rfl, rfl⟩ := Prod.mk.inj heq
      rfl

theorem signedDigits_value (neg : Bool) (s : CStr) :
    (signedDigits neg s).value =
      clampLong (if neg then -(decimalValue (s.takeWhile Char.isDigit) : Int)
        else decimalValue (s.takeWhile Char.isDigit)) := by
  rw [signedDigits]
  generalize hv : (if neg then -(decimalValue (s.takeWhile Char.isDigit) : Int)
    else decimalValue (s.takeWhile Char.isDigit)) = v
  by_cases hempty : (s.takeWhile Char.isDigit).isEmpty = true
  · have hzero : v = 0 := by
      rw [← hv, List.isEmpty_iff.mp hempty]
      cases neg <;> rfl
    rw [if_pos hempty, hzero]
    rfl
  · rw [if_neg hempty, clampLong]
    split_ifs <;> dsimp only <;> omega

/-- `strtol` of a numeral. -/
theorem strtol_digits (hne : ds ≠ []) (hd : ∀ c ∈ ds, c.isDigit = true)
    (hrest : rest.takeWhile Char.isDigit = []) :
    (strtol (ds ++ rest)).value = clampLong (decimalValue ds) := by
  have htake := takeWhile_digits hd hrest
  obtain ⟨d, ds', rfl⟩ := List.exists_cons_of_ne_nil hne
  rw [List.cons_append, strtol_of_digit (hd d List.mem_cons_self), signedDigits_value, ← List.cons_append,
    htake, if_neg Bool.false_ne_true]

theorem strtol_minus_digits (hd : ∀ c ∈ ds, c.isDigit = true) (hrest : rest.takeWhile Char.isDigit = []) :
    (strtol ('-' :: (ds ++ rest))).value = clampLong (-(decimalValue ds : Int)) := by
  rw [strtol_minus, signedDigits_value, takeWhile_digits hd hrest, if_pos rfl]

/-- A numeral alone, in the range of a `long`. -/
theorem strtol_eq_of_digits (hne : ds ≠ []) (hd : ∀ c ∈ ds, c.isDigit = true)
    (hv : decimalValue ds < 2 ^ 63) :
    strtol ds = { value := decimalValue ds, converted := true, erange := false } := by
  have htake : ds.takeWhile Char.isDigit = ds := by
    have hall : (ds ++ []).takeWhile Char.isDigit = ds := takeWhile_digits hd rfl
    rwa [List.append_nil] at hall
  obtain ⟨d, ds', rfl⟩ := List.exists_cons_of_ne_nil hne
  rw [strtol_of_digit (hd d List.mem_cons_self), signedDigits, htake]
  generalize decimalValue (d :: ds') = n at hv ⊢
  rw [if_neg Bool.false_ne_true, List.isEmpty_cons, if_neg Bool.false_ne_true, if_neg (by omega),
    if_neg (by omega)]

end

end Xmap.Target
