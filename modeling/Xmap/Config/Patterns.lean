import Xmap.Config.Fnmatch
import Xmap.Lib.Glob

/-!
# Patterns of wildcards

What a pattern says, apart from how `xm_fnmatch` goes through it: the sets of its bracket expressions, and a list of
stars and sets.
-/

namespace Xmap.Config

open Xmap.Lib.Glob
open Xmap.Target (CStr)

/-! ## Bracket expressions -/

/-- An element of a bracket expression. -/
inductive ClassItem where
  | single (c : Char)
  | range (low high : Char)

def ClassItem.contains (flags : FnmFlags) : ClassItem → Char → Bool
  | single c, s => sameChar flags c s
  | range low high, s => betweenChars flags low high s

def classItem (flags : FnmFlags) : CStr → Option (ClassItem × CStr)
  | [] => none
  | start :: rest =>
    if deref rest = '-' ∧ deref rest.tail ≠ ']' then
      if skipEscape flags rest.tail = [] ∨ isSlash flags (deref (skipEscape flags rest.tail)) then none
      else some (.range start (deref (skipEscape flags rest.tail)), (skipEscape flags rest.tail).tail)
    else some (.single start, rest)

section
variable {flags : FnmFlags} {s : Char} {hit : Bool} {pattern string rest : CStr}

theorem bracketElem_eq (flags : FnmFlags) (s : Char) (pattern : CStr) :
    bracketElem flags s pattern = (classItem flags pattern).map fun r => (r.1.contains flags s, r.2) := by
  cases pattern with
  | nil => rfl
  | cons start rest =>
    rw [bracketElem, classItem]
    split
    · dsimp only
      split <;> rfl
    · rfl

theorem classItem_length {r : ClassItem × CStr} (h : classItem flags pattern = some r) :
    r.2.length < pattern.length := by
  have helem : bracketElem flags 'a' pattern = some (r.1.contains flags 'a', r.2) := by
    rw [bracketElem_eq, h]
    rfl
  exact bracketElem_length helem

end

/-- The elements up to the closing bracket. -/
def classItems (flags : FnmFlags) (pattern : CStr) : Option (List ClassItem × CStr) :=
  if pattern = [] then none
  else if deref pattern = ']' then some ([], pattern.tail)
  else if skipEscape flags pattern = [] ∨ isSlash flags (deref (skipEscape flags pattern)) then none
  else
    match _h : classItem flags (skipEscape flags pattern) with
    | none => none
    | some r => (classItems flags r.2).map fun q => (r.1 :: q.1, q.2)
termination_by pattern.length
decreasing_by exact (classItem_length _h).trans_le (length_skipEscape flags pattern)

def classBody (flags : FnmFlags) (pattern : CStr) : Option (List ClassItem × CStr) :=
  if deref pattern = ']' then
    (classItem flags pattern).bind fun r => (classItems flags r.2).map fun q => (r.1 :: q.1, q.2)
  else classItems flags pattern

/-- The set of a bracket expression. -/
def bracketSet (flags : FnmFlags) (pattern : CStr) : Option ((Char → Bool) × CStr) :=
  (classBody flags (if isNegated pattern then pattern.tail else pattern)).map fun r =>
    (fun s => (r.1.any fun i => i.contains flags s) != isNegated pattern, r.2)

/-- The set that a pattern begins with, and the pattern behind it. -/
def firstSet (flags : FnmFlags) (pattern : CStr) : (Char → Bool) × CStr :=
  if deref pattern = '[' then (bracketSet flags pattern.tail).getD (sameChar flags '[', pattern.tail)
  else if deref pattern = '?' then (fun _ => true, pattern.tail)
  else if flags.escape ∧ deref pattern = '\\' ∧ pattern.tail ≠ [] then
    (sameChar flags (deref pattern.tail), pattern.tail.tail)
  else (sameChar flags (deref pattern), pattern.tail)

section
variable {flags : FnmFlags} {s : Char} {hit : Bool} {pattern string rest : CStr}

theorem bracketLoop_eq (flags : FnmFlags) (s : Char) (hit : Bool) (pattern : CStr) : bracketLoop flags s hit pattern =
    (classItems flags pattern).map fun r => (hit || r.1.any fun i => i.contains flags s, r.2) := by
  fun_induction classItems flags pattern generalizing hit with
  | case1 => simp [bracketLoop]
  | case2 pattern hne hclose => rw [bracketLoop, if_neg hne, if_pos hclose]; simp
  | case3 pattern hne hclose hslash => rw [bracketLoop, if_neg hne, if_neg hclose, if_pos hslash]; rfl
  | case4 pattern hne hclose hslash hitem =>
    have helem : bracketElem flags s (skipEscape flags pattern) = none := by rw [bracketElem_eq, hitem]; rfl
    rw [bracketLoop, if_neg hne, if_neg hclose, if_neg hslash]
    split
    · rfl
    · next h => rw [helem] at h; cases h
  | case5 pattern hne hclose hslash r hitem ih =>
    have helem : bracketElem flags s (skipEscape flags pattern) = some (r.1.contains flags s, r.2) := by
      rw [bracketElem_eq, hitem]; rfl
    rw [bracketLoop, if_neg hne, if_neg hclose, if_neg hslash]
    split
    · next h => rw [helem] at h; cases h
    · next r' h =>
      rw [helem] at h
      obtain rfl := Option.some.inj h
      rw [ih]
      simp [Function.comp_def, Bool.or_assoc]

theorem bracket_eq (flags : FnmFlags) (s : Char) (pattern : CStr) :
    bracket flags s pattern = (bracketSet flags pattern).map fun r => (r.1 s, r.2) := by
  have hbody (p : CStr) : bracketBody flags s p =
      (classBody flags p).map fun r => (r.1.any fun i => i.contains flags s, r.2) := by
    unfold bracketBody classBody
    split
    · rw [bracketElem_eq]
      cases classItem flags p with
      | none => rfl
      | some r => simp [bracketLoop_eq, Function.comp_def]
    · simp [bracketLoop_eq]
  rw [bracket, hbody, bracketSet]
  simp [Function.comp_def]

theorem firstSet_length (h : pattern ≠ []) : (firstSet flags pattern).2.length < pattern.length := by
  have htail := length_tail_lt h
  unfold firstSet
  split
  · cases hset : bracketSet flags pattern.tail with
    | none => exact htail
    | some r =>
      have hbracket : bracket flags 'a' pattern.tail = some (r.1 'a', r.2) := by rw [bracket_eq, hset]; rfl
      exact (bracket_length hbracket).trans htail
  · split
    · exact htail
    · split
      · next hescape => exact (length_tail_lt hescape.2.2).trans htail
      · exact htail

end

/-- The pattern as stars and sets of letters. -/
def tokens (flags : FnmFlags) (pattern : CStr) : List (Tok Char) :=
  if _h : pattern = [] then []
  else if deref pattern = '*' then .star :: tokens flags pattern.tail
  else .one (firstSet flags pattern).1 :: tokens flags (firstSet flags pattern).2
termination_by pattern.length
decreasing_by
  · exact length_tail_lt _h
  · exact firstSet_length _h

/-- A period, as it is or behind a backslash. -/
def BeginsWithPeriod (flags : FnmFlags) (pattern : CStr) : Prop :=
  deref pattern = '.' ∨ flags.escape = true ∧ deref pattern = '\\' ∧ deref pattern.tail = '.'

/-- The string is one that the wildcards allow. -/
structure GlobMatches (flags : FnmFlags) (pattern string : CStr) : Prop where
  period : flags.period = true → deref string = '.' → BeginsWithPeriod flags pattern
  tokens : Matches (tokens flags pattern) string

/-- Slashes are nothing special, or there is none. -/
def NoSlash (flags : FnmFlags) (s : CStr) : Prop := flags.pathname = true → '/' ∉ s

end Xmap.Config
