import Xmap.Config.IncludeTheorems

/-!
# Theorems on written configurations

Words in quotes may have blanks, quotes and backslashes. A file of directives that are written with them is read back
as these directives.
-/

namespace Xmap.Config

open Xmap.Lib.Includes
open Xmap.Target (CStr isSpace fgets_newline)

/-- A command and its words. -/
structure Directive where
  name : CStr
  args : List CStr

def escapeWord (w : CStr) : CStr := w.flatMap fun c => if c = '"' ∨ c = '\\' then ['\\', c] else [c]

def quoteWord (w : CStr) : CStr := '"' :: (escapeWord w ++ ['"'])

/-- Words in quotes, with blanks between them. -/
def quoteLine : List CStr → CStr
  | [] => []
  | [w] => quoteWord w
  | w :: w' :: ws => quoteWord w ++ ' ' :: quoteLine (w' :: ws)

def Directive.line (d : Directive) : CStr := quoteLine (d.name :: d.args)

def writeConfig (ds : List Directive) : CStr := ds.flatMap fun d => d.line ++ ['\n']

/-- What the reader has room for. -/
structure Directive.Writable (d : Directive) : Prop where
  name_ne_nil : d.name ≠ []
  not_include : strcasecmp d.name "Include".toList = false
  not_includeOptional : strcasecmp d.name "IncludeOptional".toList = false
  letters : ∀ w ∈ d.name :: d.args, '\n' ∉ w ∧ Char.ofNat 0 ∉ w
  length_args : d.args.length ≤ XM_MAX_ARGC
  last_ne_nil : d.args.getLast? ≠ some []
  length_line : d.line.length + 1 < MAX_STRING_LEN

/-! ## Words -/

section
variable {c : Char} {w l rest : CStr} {ws : List CStr}

theorem escapeWord_special (hc : c = '"' ∨ c = '\\') : escapeWord (c :: w) = '\\' :: c :: escapeWord w := by
  simp [escapeWord, hc]

theorem escapeWord_other (hc : ¬ (c = '"' ∨ c = '\\')) : escapeWord (c :: w) = c :: escapeWord w := by
  simp [escapeWord, hc]

theorem isEscape_special (hc : c = '"' ∨ c = '\\') : isEscape '"' ('\\' :: c :: l) = true := by
  rcases hc with rfl | rfl <;> simp [isEscape, deref]

theorem isEscape_other (hc : c ≠ '\\') : isEscape '"' (c :: l) = false := by
  simp [isEscape, deref, hc]

theorem quotedLength_escapeWord (w rest : CStr) :
    quotedLength '"' (escapeWord w ++ '"' :: rest) = (escapeWord w).length := by
  induction w with
  | nil =>
    rw [quotedLength]
    simp [escapeWord, deref]
  | cons c w ih =>
    by_cases hc : c = '"' ∨ c = '\\'
    · rw [escapeWord_special hc, List.cons_append, List.cons_append, quotedLength]
      simp [deref, isEscape_special hc, ih]
    · obtain ⟨hquote, hslash⟩ := not_or.mp hc
      rw [escapeWord_other hc, List.cons_append, quotedLength]
      simp [deref, isEscape_other hslash, hquote, ih]

theorem substringConf_escapeWord (w rest : CStr) :
    substringConf '"' (escapeWord w).length (escapeWord w ++ rest) = w := by
  induction w with
  | nil =>
    rw [substringConf]
    simp [escapeWord]
  | cons c w ih =>
    by_cases hc : c = '"' ∨ c = '\\'
    · rw [escapeWord_special hc, List.cons_append, List.cons_append, substringConf]
      simp [deref, isEscape_special hc, ih]
    · obtain ⟨-, hslash⟩ := not_or.mp hc
      rw [escapeWord_other hc, List.cons_append, substringConf]
      simp [deref, isEscape_other hslash, ih]

theorem xmGetwordConf_quoteWord (w rest : CStr) : xmGetwordConf (quoteWord w ++ rest) = (w, skipSpaces rest) := by
  have hquote : quoteWord w ++ rest = '"' :: (escapeWord w ++ '"' :: rest) := by simp [quoteWord]
  have hskip : skipSpaces ('"' :: (escapeWord w ++ '"' :: rest)) = '"' :: (escapeWord w ++ '"' :: rest) := rfl
  have hlen := quotedLength_escapeWord w rest
  have hword := substringConf_escapeWord w ('"' :: rest)
  rw [hquote]
  simp [xmGetwordConf, hskip, deref, hlen, hword]

theorem quoteLine_cons (w : CStr) (ws : List CStr) : ∃ l, quoteLine (w :: ws) = '"' :: l := by
  cases ws with
  | nil => exact ⟨_, rfl⟩
  | cons w' ws => exact ⟨_, rfl⟩

theorem quoteLine_concat (w : CStr) (ws : List CStr) : ∃ l, quoteLine (w :: ws) = l ++ ['"'] := by
  induction ws generalizing w with
  | nil => exact ⟨'"' :: escapeWord w, rfl⟩
  | cons w' ws ih =>
    obtain ⟨l, hl⟩ := ih w'
    exact ⟨quoteWord w ++ ' ' :: l, by simp [quoteLine, hl]⟩

theorem xmGetwordConf_quoteLine (w : CStr) (ws : List CStr) :
    xmGetwordConf (quoteLine (w :: ws)) = (w, quoteLine ws) := by
  cases ws with
  | nil =>
    have hword := xmGetwordConf_quoteWord w []
    rwa [List.append_nil] at hword
  | cons w' ws =>
    obtain ⟨l, hl⟩ := quoteLine_cons w' ws
    rw [quoteLine, xmGetwordConf_quoteWord, hl]
    rfl

theorem argvLoop_quoteLine {n : Nat} (hlen : ws.length ≤ n) (hlast : ws.getLast? ≠ some []) :
    argvLoop n (quoteLine ws) = ws := by
  induction ws generalizing n with
  | nil => cases n <;> rfl
  | cons w ws ih =>
    obtain ⟨m, rfl⟩ := Nat.exists_eq_add_of_le' (Nat.le_trans (Nat.succ_pos ws.length) hlen)
    rw [argvLoop, xmGetwordConf_quoteLine]
    dsimp only
    cases ws with
    | nil =>
      rw [if_neg fun h => hlast (congrArg some h.1)]
      rfl
    | cons w' ws =>
      obtain ⟨l, hl⟩ := quoteLine_cons w' ws
      have hne : quoteLine (w' :: ws) ≠ [] := by
        rw [hl]
        exact List.cons_ne_nil _ _
      rw [if_neg fun h => hne h.2, if_neg hne, ih (Nat.le_of_succ_le_succ hlen) (by simpa using hlast)]

theorem mem_escapeWord (h : c ∈ escapeWord w) : c = '\\' ∨ c ∈ w := by
  obtain ⟨d, hd, hc⟩ := List.mem_flatMap.mp h
  split at hc
  · rcases List.mem_cons.mp hc with rfl | hc
    · exact .inl rfl
    · exact .inr (List.mem_singleton.mp hc ▸ hd)
  · exact .inr (List.mem_singleton.mp hc ▸ hd)

theorem mem_quoteWord (h : c ∈ quoteWord w) : c = '"' ∨ c = '\\' ∨ c ∈ w := by
  rcases List.mem_cons.mp h with rfl | h
  · exact .inl rfl
  · rcases List.mem_append.mp h with h | h
    · exact .inr (mem_escapeWord h)
    · exact .inl (List.mem_singleton.mp h)

theorem not_mem_quoteWord (hquote : c ≠ '"') (hslash : c ≠ '\\') (h : c ∉ w) : c ∉ quoteWord w := by
  intro hc
  rcases mem_quoteWord hc with hc | hc | hc
  · exact hquote hc
  · exact hslash hc
  · exact h hc

theorem not_mem_quoteLine (hquote : c ≠ '"') (hslash : c ≠ '\\') (hblank : c ≠ ' ') (h : ∀ w ∈ ws, c ∉ w) :
    c ∉ quoteLine ws := by
  fun_induction quoteLine ws with
  | case1 => exact List.not_mem_nil
  | case2 w => exact not_mem_quoteWord hquote hslash (h w List.mem_cons_self)
  | case3 w w' ws ih =>
    obtain ⟨hw, hws⟩ := List.forall_mem_cons.mp h
    intro hc
    rcases List.mem_append.mp hc with hc | hc
    · exact not_mem_quoteWord hquote hslash hw hc
    · rcases List.mem_cons.mp hc with hc | hc
      · exact hblank hc
      · exact ih hws hc

end

/-! ## Lines -/

section
variable {fs : FileSys} {fn l rest : CStr} {n : Nat} {d : Directive} {ds : List Directive}

theorem cfgTrimLine_quoted (hfirst : ∃ s, l = '"' :: s) (hlast : ∃ s, l = s ++ ['"']) :
    cfgTrimLine (l ++ ['\n']) = l := by
  have hdrop : (l ++ ['\n']).dropWhile isSpace = l ++ ['\n'] := by
    obtain ⟨s, rfl⟩ := hfirst
    rfl
  obtain ⟨s, rfl⟩ := hlast
  rw [cfgTrimLine, hdrop, List.rdropWhile_concat_pos _ _ _ (by decide), List.rdropWhile_concat_neg _ _ _ (by decide)]

theorem xmCfgGetline_quoted (hnewline : '\n' ∉ l) (hnul : Char.ofNat 0 ∉ l) (hfirst : ∃ s, l = '"' :: s)
    (hlast : ∃ s, l = s ++ ['"']) (hlen : l.length + 1 < MAX_STRING_LEN) :
    xmCfgGetline MAX_STRING_LEN ⟨fn, l ++ '\n' :: rest, n⟩ = (some l, ⟨fn, rest, n + 1⟩) := by
  have hle : (l ++ ['\n']).length ≤ MAX_STRING_LEN - ([] : CStr).length - 1 := by
    rw [List.length_append, List.length_singleton, List.length_nil]
    omega
  have hgets : xmFileGets (MAX_STRING_LEN - ([] : CStr).length) (l ++ '\n' :: rest) = some (l ++ ['\n'], rest) := by
    rw [xmFileGets, if_neg (by simp), fgets_newline hnewline, List.take_of_length_le hle, List.drop_of_length_le hle]
    rfl
  have hcstr : cstr (l ++ ['\n']) = l ++ ['\n'] := by
    rw [cstr, List.takeWhile_eq_self_iff]
    intro c hc
    rcases List.mem_append.mp hc with hc | hc
    · simpa using fun h : c = Char.ofNat 0 => hnul (h ▸ hc)
    · rw [List.mem_singleton.mp hc]
      decide
  have hnone : continued (l ++ ['\n']) = none := by
    obtain ⟨s, rfl⟩ := hlast
    simp [continued]
  -- the quote in front of the newline is why the line does not go on
  have hcore : xmCfgGetlineCore MAX_STRING_LEN [] ⟨fn, l ++ '\n' :: rest, n⟩ =
      (.line (l ++ ['\n']), ⟨fn, rest, n + 1⟩) := by
    rw [xmCfgGetlineCore]
    split
    · next h =>
      rw [hgets] at h
      cases h
    · next h =>
      rw [hgets] at h
      cases h
      split
      · next h =>
        rw [hcstr, hnone] at h
        cases h
      · simp [hcstr]
  rw [xmCfgGetline, hcore]
  dsimp only
  rw [cfgTrimLine_quoted hfirst hlast]

theorem Directive.Writable.getline (h : d.Writable) :
    xmCfgGetline MAX_STRING_LEN ⟨fn, d.line ++ '\n' :: rest, n⟩ = (some d.line, ⟨fn, rest, n + 1⟩) :=
  xmCfgGetline_quoted
    (not_mem_quoteLine (by decide) (by decide) (by decide) fun w hw => (h.letters w hw).1)
    (not_mem_quoteLine (by decide) (by decide) (by decide) fun w hw => (h.letters w hw).2)
    (quoteLine_cons d.name d.args) (quoteLine_concat d.name d.args) h.length_line

theorem Directive.Writable.stmtOf_line (h : d.Writable) : stmtOf d.line = .directive d.name (quoteLine d.args) := by
  have hguard : ¬ (deref d.line = '#' ∨ d.line = []) := by
    obtain ⟨l, hl⟩ := quoteLine_cons d.name d.args
    rw [Directive.line, hl]
    simp [deref]
  have hword : xmGetwordConf d.line = (d.name, quoteLine d.args) := xmGetwordConf_quoteLine d.name d.args
  rw [stmtOf, if_neg hguard, hword]
  dsimp only
  rw [if_neg h.name_ne_nil, h.not_includeOptional, h.not_include]
  rfl

/-- The events of the lines, with the number of the line before them. -/
def directiveEvents (fn : CStr) : Nat → List Directive → List Event
  | _, [] => []
  | n, d :: ds => .directive fn (n + 1) d.name (quoteLine d.args) :: directiveEvents fn (n + 1) ds

theorem fileLines_writeConfig (hds : ∀ d ∈ ds, d.Writable) :
    fileLines fs ⟨fn, writeConfig ds, n⟩ = (directiveEvents fn n ds).map .apply := by
  induction ds generalizing n with
  | nil =>
    have hend : xmCfgGetline MAX_STRING_LEN ⟨fn, [], n⟩ = (none, ⟨fn, [], n + 1⟩) := by
      rw [xmCfgGetline, xmCfgGetlineCore]
      rfl
    exact fileLines_none hend
  | cons d ds ih =>
    obtain ⟨hd, hds⟩ := List.forall_mem_cons.mp hds
    have hcontent : writeConfig (d :: ds) = d.line ++ '\n' :: writeConfig ds := by simp [writeConfig]
    rw [hcontent, fileLines_some hd.getline, hd.stmtOf_line]
    simp only [ih hds]
    rfl

variable {σ : Type} {cmds : List (CommandRec σ)} {f : Directive → σ → σ}

theorem applyAll_directiveEvents (hcmds : ∀ d ∈ ds, ∃ cmd, xmFindCommand d.name cmds = some cmd ∧
      ∀ config, invokeCmd cmd (quoteLine d.args) config = (f d config, none)) (n : Nat) (config : σ) :
    applyAll cmds (directiveEvents fn n ds) config = (ds.foldl (fun config d => f d config) config, none) := by
  induction ds generalizing n config with
  | nil => rfl
  | cons d ds ih =>
    obtain ⟨⟨cmd, hfind, hinvoke⟩, hcmds⟩ := List.forall_mem_cons.mp hcmds
    simp only [directiveEvents, applyAll, applyEvent, hfind, hinvoke, Option.map_none]
    exact ih hcmds (n + 1) (f d config)

/-- Written directives are read back where each command takes the words of its line. -/
theorem processCommandConfig_of_invoke (hpath : xmFnmatchTest fn = false)
    (hfile : fs.contents fn = some (writeConfig ds)) (hds : ∀ d ∈ ds, d.Writable)
    (hcmds : ∀ d ∈ ds, ∃ cmd, xmFindCommand d.name cmds = some cmd ∧
      ∀ config, invokeCmd cmd (quoteLine d.args) config = (f d config, none)) (config : σ) :
    ∃ r, ProcessCommandConfig fs cmds fn config r ∧ r.errmsg = none ∧
      r.config = ds.foldl (fun config d => f d config) config := by
  have hnames : xmPopulateIncludeFiles fs fn false = .ok [fn] := by
    rw [xmPopulateIncludeFiles, hpath]
    rfl
  have hdocs : docs fs fn = some ((directiveEvents fn 0 ds).map .apply) := by
    rw [docs, hfile, Option.map_some, xmPcfgOpenfile, fileLines_writeConfig hds]
  have hexec : exec (docs fs) 1023 [] [fn].reverse = (directiveEvents fn 0 ds, none) := by
    rw [List.reverse_singleton, exec, hdocs]
    exact exec_apply _
  obtain ⟨r, h, hout⟩ := processCommandConfig_of_names cmds config hnames
  rw [hexec, outcome, applyAll_directiveEvents hcmds] at hout
  exact ⟨r, h, congrArg Prod.snd hout, congrArg Prod.fst hout⟩

/-- A file of written directives is read back: each one is called with its words, in the order of the file. -/
theorem processCommandConfig_writeConfig (hpath : xmFnmatchTest fn = false)
    (hfile : fs.contents fn = some (writeConfig ds)) (hds : ∀ d ∈ ds, d.Writable)
    (hcmds : ∀ d ∈ ds, ∃ cmd, xmFindCommand d.name cmds = some cmd ∧ cmd.argsHow = .takeArgv ∧
      ∀ config, cmd.func (.takeArgv d.args) config = (f d config, none)) (config : σ) :
    ∃ r, ProcessCommandConfig fs cmds fn config r ∧ r.errmsg = none ∧
      r.config = ds.foldl (fun config d => f d config) config := by
  refine processCommandConfig_of_invoke hpath hfile hds (fun d hd => ?_) config
  obtain ⟨cmd, hfind, hhow, hfunc⟩ := hcmds d hd
  refine ⟨cmd, hfind, fun config => ?_⟩
  rw [invokeCmd, hhow]
  dsimp only
  rw [argvLoop_quoteLine (hds d hd).length_args (hds d hd).last_ne_nil, hfunc]

end

/-- A word with a blank and a quote. -/
def userDirective : Directive := ⟨"User".toList, [['a', ' ', '"']]⟩

def userArgvCommand : CommandRec (List CStr) where
  name := "User".toList
  func := fun args config =>
    match args with
    | .takeArgv argv => (argv, none)
    | _ => (config, none)
  argsHow := .takeArgv
  errmsg := none

def writtenFile : FileSys where
  contents := fun fn => if fn = ['a'] then some (writeConfig [userDirective]) else none
  isDirectory := fun _ => false
  entries := fun _ => none
  strerror := fun _ => []

theorem userDirective_writable : userDirective.Writable where
  name_ne_nil := by decide
  not_include := by decide
  not_includeOptional := by decide
  letters := by decide
  length_args := by decide
  last_ne_nil := by decide
  length_line := by decide

theorem processCommandConfig_writeConfig_user : ∃ r, ProcessCommandConfig writtenFile [userArgvCommand] ['a'] [] r ∧
    r.errmsg = none ∧ r.config = [userDirective].foldl (fun _ d => d.args) [] := by
  refine processCommandConfig_writeConfig (f := fun d _ => d.args) (by decide) rfl ?_ ?_ []
  · intro d hd
    rw [List.mem_singleton.mp hd]
    exact userDirective_writable
  · intro d hd
    rw [List.mem_singleton.mp hd]
    exact ⟨userArgvCommand, rfl, rfl, fun _ => rfl⟩

end Xmap.Config
