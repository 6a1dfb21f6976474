import Mathlib.Data.List.DropRight
import Xmap.Target.Lines

/-!
# Lines of configuration files (`xm_cfg_getline`)

A line that ends with a backslash goes on in the next one. The buffer has a fixed size; a line that fills it is an
error.
-/

namespace Xmap.Config

open Xmap.Target (CStr isSpace fgets fgets_append)

def MAX_STRING_LEN : Nat := 8192

/-- `xm_configfile_t`, with what is not read yet. -/
structure ConfigFile where
  name : CStr
  rest : CStr
  lineNumber : Nat
deriving DecidableEq

/-- `xm_pcfg_openfile`, where the file opens. -/
def xmPcfgOpenfile (name content : CStr) : ConfigFile := ⟨name, content, 0⟩

/-- `xm_file_gets` on a buffered file, for a buffer of more than one byte. There is nothing at the end of the file. -/
def xmFileGets (len : Nat) (s : CStr) : Option (CStr × CStr) := if s = [] then none else some (fgets (len - 1) s)

/-- Up to the null character that ends it. -/
def cstr (s : CStr) : CStr := s.takeWhile (· != Char.ofNat 0)

inductive LineStatus where
  | eof
  | noSpace
  | line (l : CStr)
deriving DecidableEq

/-- What is in front of a newline, of a carriage return before it and of a backslash before these, where the line goes
on. -/
def continued (piece : CStr) : Option CStr :=
  if piece.getLast? = some '\n' then
    let body := piece.dropLast
    let body := if body.getLast? = some '\r' then body.dropLast else body
    if body.getLast? = some '\\' then some body.dropLast else none
  else none

section
variable {n : Nat} {s piece rest head : CStr}

theorem continued_ne_nil (h : continued (cstr piece) = some head) : piece ≠ [] := by
  rintro rfl
  cases h

theorem xmFileGets_append (h : xmFileGets n s = some (piece, rest)) : piece ++ rest = s := by
  unfold xmFileGets at h
  split at h
  · cases h
  · have happend := fgets_append (n - 1) s
    rwa [Option.some.inj h] at happend

theorem xmFileGets_length (h : xmFileGets n s = some (piece, rest)) (hne : piece ≠ []) : rest.length < s.length := by
  rw [← xmFileGets_append h, List.length_append]
  exact Nat.lt_add_of_pos_left (List.length_pos_of_ne_nil hne)

/-- A buffer with room takes a letter. -/
theorem xmFileGets_ne_nil (h : xmFileGets n s = some (piece, rest)) (hn : 2 ≤ n) : piece ≠ [] := by
  obtain ⟨m, rfl⟩ : ∃ m, n = m + 2 := ⟨n - 2, by omega⟩
  cases s with
  | nil => cases h
  | cons c s =>
    rw [xmFileGets, if_neg (List.cons_ne_nil c s), show m + 2 - 1 = m + 1 from rfl, fgets] at h
    split at h <;> cases h <;> exact List.cons_ne_nil _ _

end

/-- The loop of `xm_cfg_getline_core`, with what stands in the buffer before the piece that is read next. -/
def xmCfgGetlineCore (bufsize : Nat) (buf : CStr) (cfp : ConfigFile) : LineStatus × ConfigFile :=
  match _h : xmFileGets (bufsize - buf.length) cfp.rest with
  | none => (if buf = [] then .eof else .line buf, { cfp with lineNumber := cfp.lineNumber + 1 })
  | some (piece, rest) =>
    match _hc : continued (cstr piece) with
    | some head => xmCfgGetlineCore bufsize (buf ++ head) { cfp with rest := rest, lineNumber := cfp.lineNumber + 1 }
    | none =>
      if (cstr piece).getLast? ≠ some '\n' ∧ bufsize - 1 ≤ (buf ++ cstr piece).length then
        (.noSpace, { cfp with rest := rest, lineNumber := cfp.lineNumber + 1 })
      else (.line (buf ++ cstr piece), { cfp with rest := rest, lineNumber := cfp.lineNumber + 1 })
termination_by cfp.rest.length
decreasing_by exact xmFileGets_length _h (continued_ne_nil _hc)

def cfgTrimLine (buf : CStr) : CStr := (buf.dropWhile isSpace).rdropWhile isSpace

/-- Nothing is read where the call does not return 0. -/
def xmCfgGetline (bufsize : Nat) (cfp : ConfigFile) : Option CStr × ConfigFile :=
  match xmCfgGetlineCore bufsize [] cfp with
  | (.line l, cfp) => (some (cfgTrimLine l), cfp)
  | (_, cfp) => (none, cfp)

section
variable {bufsize : Nat} {buf l : CStr} {cfp cfp' : ConfigFile}

/-- A line takes something of the file, or there was something before it. -/
theorem xmCfgGetlineCore_length (h : xmCfgGetlineCore bufsize buf cfp = (.line l, cfp')) :
    cfp'.rest.length ≤ cfp.rest.length ∧ (buf = [] → 2 ≤ bufsize → cfp'.rest.length < cfp.rest.length) := by
  fun_induction xmCfgGetlineCore bufsize buf cfp with
  | case1 buf cfp hgets =>
    obtain ⟨hl, rfl⟩ := Prod.ext_iff.mp h
    refine ⟨le_rfl, fun hbuf => ?_⟩
    simp [hbuf] at hl
  | case2 buf cfp piece rest hgets head hc ih =>
    have hlt := xmFileGets_length hgets (continued_ne_nil hc)
    have hle := (ih h).1
    exact ⟨hle.trans hlt.le, fun _ _ => hle.trans_lt hlt⟩
  | case3 => cases h
  | case4 buf cfp piece rest hgets =>
    cases h
    have happend := congrArg List.length (xmFileGets_append hgets)
    rw [List.length_append] at happend
    refine ⟨by simp only; omega, fun hbuf hsize => ?_⟩
    have hne := xmFileGets_ne_nil hgets (by simpa [hbuf] using hsize)
    exact xmFileGets_length hgets hne

end

end Xmap.Config
