import Mathlib.Data.Nat.Bitwise
import Xmap.Thread.CorePool

/-!
# The loops of `_parse_coremask`

The digits are read from the last one on. One loop goes over the digits and one over the bits of a digit,
and both stop when there is no core left.
-/

namespace Xmap.Thread

/-- The cores that are set, `cores[0]` to `cores[idx - 1]`, and `count`. -/
structure MaskState where
  enabled : List Bool
  count : Nat
deriving DecidableEq, Repr

namespace MaskState

/-- The next core is enabled or not. -/
def set (s : MaskState) (enabled : Bool) : MaskState :=
  ⟨s.enabled ++ [enabled], if enabled then s.count + 1 else s.count⟩

/-- The next cores are enabled or not. -/
def append (s : MaskState) (enabled : List Bool) : MaskState :=
  ⟨s.enabled ++ enabled, s.count + enabled.count true⟩

@[simp] theorem append_enabled (s : MaskState) (l : List Bool) : (s.append l).enabled = s.enabled ++ l := rfl

@[simp] theorem append_nil (s : MaskState) : s.append [] = s := by simp [append]

theorem append_append (s : MaskState) (l l' : List Bool) :
    (s.append l).append l' = s.append (l ++ l') := by
  simp [append, List.count_append, add_assoc]

theorem set_eq_append (s : MaskState) (b : Bool) : s.set b = s.append [b] := by
  cases b <;> rfl

end MaskState

/-- The loop over the bits of a digit, from `j` on. -/
def bitLoop (sysCoreCount val j : Nat) (s : MaskState) : MaskState :=
  if j < 4 ∧ s.enabled.length < sysCoreCount then
    bitLoop sysCoreCount val (j + 1) (s.set (decide ((1 <<< j) &&& val ≠ 0)))
  else s
termination_by 4 - j

/-- The loop over the digits, from the last one on, with those that it leaves. -/
def digitLoop (sysCoreCount : Nat) : List Char → MaskState → Option (List Char × MaskState)
  | [], s => some ([], s)
  | c :: digits, s =>
    if s.enabled.length < sysCoreCount then
      if isxdigit c then digitLoop sysCoreCount digits (bitLoop sysCoreCount (xdigit2val c) 0 s)
      else none
    else some (c :: digits, s)

/-- The two loops behind it: the digits that are left are 0, and the cores that are left are not
enabled. -/
def finishMask (sysCoreCount : Nat) (digits : List Char) (s : MaskState) : Option MaskState :=
  if digits.any (· != '0') then none
  else some (s.append (List.replicate (sysCoreCount - s.enabled.length) false))

/-- `_parse_coremask`, with the cores that it enables and `config_core_count`. -/
def parseCoremaskLoops (sysCoreCount : Nat) (coremask : List Char) : Option MaskState :=
  let digits := (stripHexPrefix (coremask.dropWhile isblank)).reverse.dropWhile isblank
  if digits = [] then none
  else
    match digitLoop sysCoreCount digits ⟨[], 0⟩ with
    | none => none
    | some (rest, s) =>
      match finishMask sysCoreCount rest s with
      | none => none
      | some s => if s.count = 0 then none else some s

/-! ## The loops as a function of the digits -/

section
variable {sysCoreCount val j : Nat} {s : MaskState}

theorem shiftLeft_and_ne_zero (val j : Nat) : decide ((1 <<< j) &&& val ≠ 0) = val.testBit j := by
  rw [Nat.one_shiftLeft, Nat.two_pow_and]
  cases val.testBit j <;> simp

theorem bitLoop_eq (sysCoreCount val j : Nat) (s : MaskState) :
    bitLoop sysCoreCount val j s =
      s.append (((List.range' j (4 - j)).map val.testBit).take (sysCoreCount - s.enabled.length)) := by
  induction hk : 4 - j generalizing j s with
  | zero =>
    rw [bitLoop, if_neg (by omega), List.range'_zero, List.map_nil, List.take_nil, MaskState.append_nil]
  | succ k ih =>
    rw [bitLoop]
    by_cases hroom : s.enabled.length < sysCoreCount
    · have hsub : sysCoreCount - s.enabled.length = sysCoreCount - (s.enabled.length + 1) + 1 := by omega
      rw [if_pos ⟨by omega, hroom⟩, ih (j + 1) _ (by omega), shiftLeft_and_ne_zero,
        MaskState.set_eq_append, MaskState.append_append, MaskState.append_enabled, List.length_append,
        List.length_singleton, List.range'_succ, List.map_cons, hsub, List.take_succ_cons]
      rfl
    · have hnone : sysCoreCount - s.enabled.length = 0 := by omega
      rw [if_neg (fun h => hroom h.2), hnone, List.take_zero, MaskState.append_nil]

/-- The loops over what is left of the digits and of the cores. -/
theorem digitLoop_finishMask (sysCoreCount : Nat) (digits : List Char) (s : MaskState)
    (hle : s.enabled.length ≤ sysCoreCount) :
    ((digitLoop sysCoreCount digits s).bind fun p => finishMask sysCoreCount p.1 p.2) =
      (parseDigits (sysCoreCount - s.enabled.length) digits).map s.append := by
  induction digits generalizing s with
  | nil =>
    rw [digitLoop, Option.bind_some, finishMask, List.any_nil, if_neg Bool.false_ne_true]
    cases sysCoreCount - s.enabled.length with
    | zero => rfl
    | succ n => rfl
  | cons c digits ih =>
    rw [digitLoop]
    cases hroom : sysCoreCount - s.enabled.length with
    | zero =>
      have hany : (c :: digits).any (· != '0') = !(c :: digits).all (· == '0') :=
        List.not_all_eq_any_not.symm
      rw [if_neg (by omega), Option.bind_some, parseDigits, finishMask, hroom]
      dsimp only
      rw [hany]
      cases (c :: digits).all (· == '0') with
      | true => rfl
      | false => rfl
    | succ n =>
      rw [if_pos (by omega), parseDigits]
      by_cases hx : isxdigit c = true
      · have hbits : List.range' 0 (4 - 0) = List.range 4 := List.range_eq_range'.symm
        rw [if_pos hx, if_pos hx, bitLoop_eq, hbits, hroom]
        generalize hb : ((List.range 4).map (xdigit2val c).testBit).take (n + 1) = bits
        have hlength : bits.length = min (n + 1) 4 := by
          rw [← hb, List.length_take, List.length_map, List.length_range]
        have hrest : sysCoreCount - (s.append bits).enabled.length = n + 1 - 4 := by
          rw [MaskState.append_enabled, List.length_append, hlength]
          omega
        rw [ih, hrest, Option.map_map]
        · exact Option.map_congr fun l _ => MaskState.append_append s bits l
        · rw [MaskState.append_enabled, List.length_append, hlength]
          omega
      · rw [if_neg hx, if_neg hx]
        rfl

/-- The loops enable the cores of `parseCoremask`, and count them. -/
theorem parseCoremaskLoops_eq (sysCoreCount : Nat) (coremask : List Char) :
    parseCoremaskLoops sysCoreCount coremask =
      (parseCoremask sysCoreCount coremask).map fun enabled => ⟨enabled, enabled.count true⟩ := by
  rw [parseCoremaskLoops, parseCoremask]
  generalize (stripHexPrefix (coremask.dropWhile isblank)).reverse.dropWhile isblank = digits
  have hloops := digitLoop_finishMask sysCoreCount digits ⟨[], 0⟩ (Nat.zero_le _)
  rw [List.length_nil, Nat.sub_zero] at hloops
  by_cases hnil : digits = []
  · rw [if_pos hnil, if_pos hnil]
    rfl
  · rw [if_neg hnil, if_neg hnil]
    cases hparse : parseDigits sysCoreCount digits with
    | none =>
      rw [hparse] at hloops
      cases hdigits : digitLoop sysCoreCount digits ⟨[], 0⟩ with
      | none => rfl
      | some p =>
        rw [hdigits, Option.bind_some, Option.map_none] at hloops
        dsimp only
        rw [hloops]
        rfl
    | some enabled =>
      rw [hparse] at hloops
      obtain ⟨p, hdigits, hfinish⟩ := Option.bind_eq_some_iff.mp hloops
      rw [hdigits]
      dsimp only
      rw [hfinish]
      dsimp only
      have hcount : (MaskState.append ⟨[], 0⟩ enabled) = ⟨enabled, enabled.count true⟩ := by
        simp [MaskState.append]
      rw [hcount]
      by_cases hany : enabled.any id = true
      · have hpos : 0 < enabled.count true :=
          List.count_pos_iff.mpr (by simpa using hany)
        rw [if_pos hany, if_neg hpos.ne']
        rfl
      · have hzero : enabled.count true = 0 := List.count_eq_zero.mpr (by simpa using hany)
        rw [if_neg hany, if_pos hzero]
        rfl

end

end Xmap.Thread
