import Xmap.Config.Fnmatch

/-!
# Words of a line (`xm_getword_conf`)

Words are apart by blanks. A word in quotes may have blanks, and the quote and backslashes behind backslashes.
-/

namespace Xmap.Config

open Xmap.Target (CStr isSpace)

/-- A backslash in front of a backslash or of the quote, if there is one. -/
def isEscape (quote : Char) (start : CStr) : Bool :=
  deref start == '\\' && (deref start.tail == '\\' || quote != Char.ofNat 0 && deref start.tail == quote)

/-- `substring_conf`. -/
def substringConf (quote : Char) (len : Nat) (start : CStr) : CStr :=
  if _h : start = [] ∨ len = 0 then []
  else if isEscape quote start then deref start.tail :: substringConf quote (len - 2) start.tail.tail
  else deref start :: substringConf quote (len - 1) start.tail
termination_by len
decreasing_by all_goals omega

/-- The letters up to the quote that closes a word. -/
def quotedLength (quote : Char) (strend : CStr) : Nat :=
  if _h : strend = [] then 0
  else if deref strend = quote then 0
  else if strend.tail ≠ [] ∧ isEscape quote strend then quotedLength quote strend.tail.tail + 2
  else quotedLength quote strend.tail + 1
termination_by strend.length
decreasing_by
  · have := length_tail_lt _h
    rw [List.length_tail]
    omega
  · exact length_tail_lt _h

def skipSpaces (s : CStr) : CStr := s.dropWhile isSpace

/-- A word, and what is left of the line. -/
def xmGetwordConf (line : CStr) : CStr × CStr :=
  let str := skipSpaces line
  if str = [] then ([], [])
  else if deref str = '"' ∨ deref str = Char.ofNat 39 then
    let strend := str.tail.drop (quotedLength (deref str) str.tail)
    (substringConf (deref str) (quotedLength (deref str) str.tail) str.tail,
      skipSpaces (if deref strend = deref str then strend.tail else strend))
  else
    let len := (str.takeWhile fun c => !isSpace c).length
    (substringConf (Char.ofNat 0) len str, skipSpaces (str.drop len))

end Xmap.Config
