import Xmap.Config.Words

/-!
# Commands (`xm_find_command`, `invoke_cmd`)
-/

namespace Xmap.Config

open Xmap.Target (CStr)

/-- `cmd_how`. -/
inductive CmdHow where
  | rawArgs
  | take1
  | take2
  | iterate
  | iterate2
  | flag
  | noArgs
  | take12
  | take3
  | take23
  | take123
  | take13
  | takeArgv
deriving DecidableEq

/-- What a member of `cmd_func` is called with. -/
inductive CmdArgs where
  | noArgs
  | rawArgs (args : CStr)
  | takeArgv (argv : List CStr)
  | take1 (w : CStr)
  | take2 (w : CStr) (w2 : Option CStr)
  | take3 (w : CStr) (w2 w3 : Option CStr)
  | flag (on : Bool)
deriving DecidableEq

/-- `command_rec`. A function changes the configuration and returns an error or `NULL`. -/
structure CommandRec (σ : Type) where
  name : CStr
  func : CmdArgs → σ → σ × Option CStr
  argsHow : CmdHow
  errmsg : Option CStr

def strcasecmp (a b : CStr) : Bool := a.map Char.toLower == b.map Char.toLower

def DECLINE_CMD : CStr := [Char.ofNat 7, Char.ofNat 8]

def XM_MAX_ARGC : Nat := 64

section
variable {σ : Type}

/-- The table ends with a record without a name. -/
def xmFindCommand (name : CStr) (cmds : List (CommandRec σ)) : Option (CommandRec σ) :=
  cmds.find? fun cmd => strcasecmp name cmd.name

/-- The number of arguments is wrong. -/
def CommandRec.takes (cmd : CommandRec σ) (text : String) : CStr :=
  cmd.name ++ text.toList ++ cmd.errmsg.elim [] fun e => ", ".toList ++ e

theorem length_skipSpaces (s : CStr) : (skipSpaces s).length ≤ s.length := (List.dropWhile_suffix _).length_le

/-- A word takes something of the line. -/
theorem xmGetwordConf_length {line : CStr} (h : (xmGetwordConf line).1 ≠ []) :
    (xmGetwordConf line).2.length < line.length := by
  have hle := length_skipSpaces line
  unfold xmGetwordConf at h ⊢
  dsimp only at h ⊢
  split at h
  · exact absurd rfl h
  · next hne =>
    rw [if_neg hne]
    have htail := length_tail_lt hne
    split
    · refine (length_skipSpaces _).trans_lt (lt_of_le_of_lt ?_ (htail.trans_le hle))
      split <;> simp only [List.length_tail, List.length_drop] <;> omega
    · refine (length_skipSpaces _).trans_lt (lt_of_lt_of_le ?_ hle)
      obtain ⟨c, rest, hstr⟩ := List.exists_cons_of_ne_nil hne
      have hc : Xmap.Target.isSpace c = false := by
        by_contra hspace
        have hhead := List.head?_dropWhile_not Xmap.Target.isSpace line
        rw [show List.dropWhile Xmap.Target.isSpace line = c :: rest from hstr] at hhead
        simp_all
      rw [hstr, List.takeWhile_cons_of_pos (by simp [hc]), List.length_drop, List.length_cons, List.length_cons]
      omega

/-- The loop of `TAKE_ARGV`, for the words that still have room. -/
def argvLoop : Nat → CStr → List CStr
  | 0, _ => []
  | n + 1, args =>
    let (w, rest) := xmGetwordConf args
    if w = [] ∧ rest = [] then []
    else w :: if rest = [] then [] else argvLoop n rest

/-- A loop of `ITERATE` and `ITERATE2`, with the last message. -/
def iterateLoop (call : CStr → σ → σ × Option CStr) (args : CStr) (config : σ) (errmsg : Option CStr) :
    σ × Option CStr :=
  if _h : (xmGetwordConf args).1 = [] then (config, errmsg)
  else
    match call (xmGetwordConf args).1 config with
    | (config, some e) =>
      if e ≠ DECLINE_CMD then (config, some e) else iterateLoop call (xmGetwordConf args).2 config (some e)
    | (config, none) => iterateLoop call (xmGetwordConf args).2 config none
termination_by args.length
decreasing_by all_goals exact xmGetwordConf_length _h

/-- A further word, where the line has one. -/
def optionalWord (args : CStr) : Option CStr × CStr :=
  if args = [] then (none, []) else (some (xmGetwordConf args).1, (xmGetwordConf args).2)

/-- `invoke_cmd`. -/
def invokeCmd (cmd : CommandRec σ) (args : CStr) (config : σ) : σ × Option CStr :=
  match cmd.argsHow with
  | .rawArgs => cmd.func (.rawArgs args) config
  | .takeArgv => cmd.func (.takeArgv (argvLoop XM_MAX_ARGC args)) config
  | .noArgs =>
    if args ≠ [] then (config, some (cmd.name ++ " takes no arguments".toList)) else cmd.func .noArgs config
  | .take1 =>
    let (w, args) := xmGetwordConf args
    if w = [] ∨ args ≠ [] then (config, some (cmd.takes " takes one argument")) else cmd.func (.take1 w) config
  | .take2 =>
    let (w, args) := xmGetwordConf args
    let (w2, args) := xmGetwordConf args
    if w = [] ∨ w2 = [] ∨ args ≠ [] then (config, some (cmd.takes " takes two arguments"))
    else cmd.func (.take2 w (some w2)) config
  | .take12 =>
    let (w, args) := xmGetwordConf args
    let (w2, args) := xmGetwordConf args
    if w = [] ∨ args ≠ [] then (config, some (cmd.takes " takes 1-2 arguments"))
    else cmd.func (.take2 w (if w2 = [] then none else some w2)) config
  | .take3 =>
    let (w, args) := xmGetwordConf args
    let (w2, args) := xmGetwordConf args
    let (w3, args) := xmGetwordConf args
    if w = [] ∨ w2 = [] ∨ w3 = [] ∨ args ≠ [] then (config, some (cmd.takes " takes thrgw arguments"))
    else cmd.func (.take3 w (some w2) (some w3)) config
  | .take23 =>
    let (w, args) := xmGetwordConf args
    let (w2, args) := xmGetwordConf args
    let (w3, args) := optionalWord args
    if w = [] ∨ w2 = [] ∨ args ≠ [] then (config, some (cmd.takes " takes two or thrgw arguments"))
    else cmd.func (.take3 w (some w2) w3) config
  | .take123 =>
    let (w, args) := xmGetwordConf args
    let (w2, args) := optionalWord args
    let (w3, args) := optionalWord args
    if w = [] ∨ args ≠ [] then (config, some (cmd.takes " takes one, two or thrgw arguments"))
    else cmd.func (.take3 w w2 w3) config
  | .take13 =>
    let (w, args) := xmGetwordConf args
    let (w2, args) := optionalWord args
    let (w3, args) := optionalWord args
    if w = [] ∨ (w2.getD [] ≠ [] ∧ w3 = none) ∨ args ≠ [] then
      (config, some (cmd.takes " takes one or thrgw arguments"))
    else cmd.func (.take3 w w2 w3) config
  | .iterate => iterateLoop (fun w => cmd.func (.take1 w)) args config none
  | .iterate2 =>
    let (w, args) := xmGetwordConf args
    if w = [] ∨ args = [] then (config, some (cmd.takes " requires at least two arguments"))
    else iterateLoop (fun w2 => cmd.func (.take2 w (some w2))) args config none
  | .flag =>
    let w := (xmGetwordConf args).1
    if w = [] ∨ (!strcasecmp w "on".toList ∧ !strcasecmp w "off".toList) then
      (config, some (cmd.name ++ " must be On or Off".toList))
    else cmd.func (.flag (!strcasecmp w "off".toList)) config

end

end Xmap.Config
