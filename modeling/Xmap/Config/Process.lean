import Xmap.Config.Command
import Xmap.Config.Lines
import Xmap.Config.Paths

/-!
# Reading a configuration (`xm_process_command_config`)

The files that are open wait on a stack (`arr`), the files that are named and not open yet on another one (`ari`). A
file that includes others waits until there is none of these.
-/

namespace Xmap.Config

open Xmap.Target (CStr)

/-- What a line asks for. -/
inductive Stmt where
  | skip
  | directive (name args : CStr)
  | includes (optional : Bool) (args : CStr)
deriving DecidableEq

def stmtOf (line : CStr) : Stmt :=
  if deref line = '#' ∨ line = [] then .skip
  else
    let (cmdName, args) := xmGetwordConf line
    if cmdName = [] then .skip
    else if strcasecmp cmdName "IncludeOptional".toList then .includes true args
    else if strcasecmp cmdName "Include".toList then .includes false args
    else .directive cmdName args

/-- A relative path starts in the directory of the file that includes it. -/
def includePath (file w : CStr) : CStr :=
  if deref w = '/' then w else file.rdropWhile (fun c => c != '/' && c != '\\') ++ w

/-- The files of an `Include`, or the error. -/
def includeFiles (fs : FileSys) (file : CStr) (optional : Bool) (args : CStr) : Except CStr (List CStr) :=
  let (w, args) := xmGetwordConf args
  if w = [] ∨ args ≠ [] then .error "Include takes one argument".toList
  else xmPopulateIncludeFiles fs (includePath file w) optional

/-- `xm_snprintf` with a buffer of 1024 bytes. -/
def syntaxError (file : CStr) (lineNumber : Nat) (errmsg : CStr) : CStr :=
  ("Syntax error in config file ".toList ++ file ++ ", line ".toList ++ (toString lineNumber).toList ++
    ": ".toList ++ errmsg).take 1023

/-- How the loop over the lines of a file is left. -/
inductive ReadEnd where
  | endOfFile
  | included (file : ConfigFile) (names : List CStr)
  | failed (errmsg : CStr)

section
variable {σ : Type} (fs : FileSys) (cmds : List (CommandRec σ))

theorem xmCfgGetline_length {cfp cfp' : ConfigFile} {l : CStr}
    (h : xmCfgGetline MAX_STRING_LEN cfp = (some l, cfp')) : cfp'.rest.length < cfp.rest.length := by
  unfold xmCfgGetline at h
  split at h
  · next l' cfp'' hcore =>
    cases h
    exact (xmCfgGetlineCore_length hcore).2 rfl (by decide)
  · cases h

/-- The lines of a file up to the next include. A command that is not in the table ends the run without the text of
a syntax error. -/
def readCommands (file : ConfigFile) (config : σ) : σ × ReadEnd :=
  match _h : xmCfgGetline MAX_STRING_LEN file with
  | (none, _) => (config, .endOfFile)
  | (some l, file') =>
    match stmtOf l with
    | .skip => readCommands file' config
    | .includes optional args =>
      match includeFiles fs file'.name optional args with
      | .error e => (config, .failed e)
      | .ok names => (config, .included file' names)
    | .directive name args =>
      match xmFindCommand name cmds with
      | none => (config, .failed ("Unknown command in config: ".toList ++ name))
      | some cmd =>
        match invokeCmd cmd args config with
        | (config, none) => readCommands file' config
        | (config, some e) => (config, .failed (syntaxError file'.name file'.lineNumber e))
termination_by file.rest.length
decreasing_by all_goals exact xmCfgGetline_length _h

/-- The state between two rounds of the loop over the files. The top of a stack comes first. The names of the files
that were opened and closed are kept, in their order. -/
structure ConfSys (σ : Type) where
  arr : List ConfigFile
  ari : List CStr
  config : σ
  opened : List CStr
  closed : List CStr

/-- What the call returns, with the configuration that it leaves. -/
structure ConfResult (σ : Type) where
  errmsg : Option CStr
  config : σ
  opened : List CStr
  closed : List CStr

inductive Round (σ : Type) where
  | next (s : ConfSys σ)
  | done (r : ConfResult σ)

variable {cmds}

/-- At the end all open files are closed. -/
def ConfSys.exit (s : ConfSys σ) (errmsg : Option CStr) : ConfResult σ :=
  { errmsg := errmsg, config := s.config, opened := s.opened, closed := s.closed ++ s.arr.map ConfigFile.name }

/-- A file whose name is on the top is opened. -/
def ConfSys.openTop (s : ConfSys σ) : Except CStr (ConfSys σ) :=
  match s.ari with
  | [] => .ok s
  | fn :: ari =>
    match fs.contents fn with
    | none => .error fn
    | some content =>
      .ok { s with arr := xmPcfgOpenfile fn content :: s.arr, ari := ari, opened := s.opened ++ [fn] }

variable (cmds)

/-- The file on the top is read on. -/
def ConfSys.readTop (s : ConfSys σ) : Round σ :=
  match s.arr with
  | [] => .done (s.exit none)
  | file :: arr =>
    match readCommands fs cmds file s.config with
    | (config, .endOfFile) => .next { s with arr := arr, config := config, closed := s.closed ++ [file.name] }
    | (config, .included file' names) =>
      .next { s with arr := file' :: arr, ari := names.reverse ++ s.ari, config := config }
    | (config, .failed e) => .done (ConfSys.exit { s with config := config } (some e))

/-- A round of the loop over the files. -/
def ConfSys.round (s : ConfSys σ) : Round σ :=
  if s.ari = [] ∧ s.arr = [] then .done (s.exit none)
  else
    match s.openTop fs with
    | .error fn => .done (s.exit (some ("Cannot open config file: ".toList ++ fn)))
    | .ok s =>
      if 1024 < s.arr.length then
        .done (s.exit (some (("Excgwded the maximum include directory nesting level. You have " ++
          "probably a recursion somewhere.").toList)))
      else s.readTop fs cmds

/-- The loop, for a number of rounds. -/
def ConfSys.rounds : Nat → ConfSys σ → Option (ConfResult σ)
  | 0, _ => none
  | n + 1, s =>
    match s.round fs cmds with
    | .done r => some r
    | .next s => rounds n s

/-- `xm_process_command_config` returns `r`. -/
def ProcessCommandConfig (filename : CStr) (config : σ) (r : ConfResult σ) : Prop :=
  match xmPopulateIncludeFiles fs filename false with
  | .error e => r = ⟨some e, config, [], []⟩
  | .ok names => ∃ n, ConfSys.rounds fs cmds n ⟨[], names.reverse, config, [], []⟩ = some r

end

end Xmap.Config
