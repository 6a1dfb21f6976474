import Xmap.Config.Process
import Xmap.Lib.Includes

/-!
# Theorems on includes

The loop over the files returns for any files, and closes what it opened. It reads each line as often as if the files
stood in place of the lines that include them, and in their order where no line includes more than one file.
-/

namespace Xmap.Config

open Xmap.Lib.Includes
open Xmap.Target (CStr)

/-! ## Lines of a file -/

/-- What a line does, with the file and the line that an error names. -/
inductive Event where
  | directive (file : CStr) (lineNumber : Nat) (name args : CStr)
  | failure (errmsg : CStr)

section
variable {σ : Type} (fs : FileSys) (cmds : List (CommandRec σ))

/-- The lines from where a file is read next. -/
def fileLines (file : ConfigFile) : List (Line Event CStr) :=
  match _h : xmCfgGetline MAX_STRING_LEN file with
  | (none, _) => []
  | (some l, file') =>
    match stmtOf l with
    | .skip => fileLines file'
    | .includes optional args =>
      match includeFiles fs file'.name optional args with
      | .error e => [.apply (.failure e)]
      | .ok names => .includes names :: fileLines file'
    | .directive name args => .apply (.directive file'.name file'.lineNumber name args) :: fileLines file'
termination_by file.rest.length
decreasing_by all_goals exact xmCfgGetline_length _h

def docs (fn : CStr) : Option (List (Line Event CStr)) :=
  (fs.contents fn).map fun content => fileLines fs (xmPcfgOpenfile fn content)

/-- An event, up to the message that ends the run. -/
def applyEvent (config : σ) : Event → σ × Option CStr
  | .failure e => (config, some e)
  | .directive file lineNumber name args =>
    match xmFindCommand name cmds with
    | none => (config, some ("Unknown command in config: ".toList ++ name))
    | some cmd => ((invokeCmd cmd args config).1, (invokeCmd cmd args config).2.map (syntaxError file lineNumber))

def applyAll : List Event → σ → σ × Option CStr
  | [], config => (config, none)
  | d :: ds, config =>
    match applyEvent cmds config d with
    | (config, some e) => (config, some e)
    | (config, none) => applyAll ds config

def failureText : Failure CStr → CStr
  | .missing fn => "Cannot open config file: ".toList ++ fn
  | .tooDeep =>
    ("Excgwded the maximum include directory nesting level. You have " ++ "probably a recursion somewhere.").toList

/-- The configuration and the message after some events and a failure, if there is one. -/
def outcome (r : List Event × Option (Failure CStr)) (config : σ) : σ × Option CStr :=
  match applyAll cmds r.1 config with
  | (config, some e) => (config, some e)
  | (config, none) => (config, r.2.map failureText)

variable {fs cmds}

/-! ## Equations -/

variable {file file' : ConfigFile} {l : CStr}

theorem xmCfgGetlineCore_name (n : Nat) (buf : CStr) (file : ConfigFile) :
    (xmCfgGetlineCore n buf file).2.name = file.name := by
  fun_induction xmCfgGetlineCore n buf file with
  | case1 => rfl
  | case2 _ _ _ _ _ _ _ ih => exact ih
  | case3 => rfl
  | case4 => rfl

theorem xmCfgGetline_name {n : Nat} (h : xmCfgGetline n file = (some l, file')) : file'.name = file.name := by
  have hname := xmCfgGetlineCore_name n [] file
  unfold xmCfgGetline at h
  split at h
  · next hcore =>
    rw [hcore] at hname
    cases h
    exact hname
  · cases h

theorem fileLines_none (h : xmCfgGetline MAX_STRING_LEN file = (none, file')) : fileLines fs file = [] := by
  rw [fileLines]
  split
  · rfl
  · next h' => rw [h] at h'; cases h'

theorem fileLines_some (h : xmCfgGetline MAX_STRING_LEN file = (some l, file')) : fileLines fs file =
    match stmtOf l with
    | .skip => fileLines fs file'
    | .includes optional args =>
      match includeFiles fs file'.name optional args with
      | .error e => [.apply (.failure e)]
      | .ok names => .includes names :: fileLines fs file'
    | .directive name args => .apply (.directive file'.name file'.lineNumber name args) :: fileLines fs file' := by
  rw [fileLines]
  split
  · next h' => rw [h] at h'; cases h'
  · next h' => rw [h] at h'; cases h'; rfl

theorem readCommands_name {config config' : σ} {names : List CStr}
    (h : readCommands fs cmds file config = (config', .included file' names)) : file'.name = file.name := by
  fun_induction readCommands fs cmds file config with
  | case1 => cases h
  | case2 file config l file' hline hstmt ih => exact (ih h).trans (xmCfgGetline_name hline)
  | case3 => cases h
  | case4 file config l file' hline =>
    cases h
    exact xmCfgGetline_name hline
  | case5 => cases h
  | case6 file config l file' hline name args hstmt cmd hcmd config' hinvoke ih =>
    exact (ih h).trans (xmCfgGetline_name hline)
  | case7 => cases h

variable (fs cmds) in
/-- The loop over the lines does what the lines up to the next include say. -/
theorem readCommands_spec (file : ConfigFile) (config : σ) :
    match applyAll cmds (untilInclude (fileLines fs file)).1 config with
    | (config', some e) => readCommands fs cmds file config = (config', .failed e)
    | (config', none) =>
      match (untilInclude (fileLines fs file)).2 with
      | none => readCommands fs cmds file config = (config', .endOfFile)
      | some (names, rest) => ∃ file', rest = fileLines fs file' ∧
          readCommands fs cmds file config = (config', .included file' names) := by
  fun_induction readCommands fs cmds file config with
  | case1 file config file' hline =>
    rw [fileLines_none hline]
    rfl
  | case2 file config l file' hline hstmt ih =>
    rw [fileLines_some hline, hstmt]
    exact ih
  | case3 file config l file' hline optional args hstmt e he =>
    rw [fileLines_some hline, hstmt]
    simp [he, untilInclude, applyAll, applyEvent]
  | case4 file config l file' hline optional args hstmt names hnames =>
    rw [fileLines_some hline, hstmt]
    simp only [hnames, untilInclude, applyAll]
    exact ⟨file', rfl, rfl⟩
  | case5 file config l file' hline name args hstmt hcmd =>
    rw [fileLines_some hline, hstmt]
    simp [untilInclude, applyAll, applyEvent, hcmd]
  | case6 file config l file' hline name args hstmt cmd hcmd config' hinvoke ih =>
    rw [fileLines_some hline, hstmt]
    simp only [untilInclude, applyAll, applyEvent, hcmd, hinvoke, Option.map_none]
    exact ih
  | case7 file config l file' hline name args hstmt cmd hcmd config' e hinvoke =>
    rw [fileLines_some hline, hstmt]
    simp [untilInclude, applyAll, applyEvent, hcmd, hinvoke]

/-! ## Runs -/

/-- The documents and names of a state. -/
def ConfSys.toSys (fs : FileSys) (s : ConfSys σ) : Sys Event CStr := ⟨s.arr.map (fileLines fs), s.ari⟩

theorem applyAll_append (ds es : List Event) (config : σ) : applyAll cmds (ds ++ es) config =
    match applyAll cmds ds config with
    | (config, some e) => (config, some e)
    | (config, none) => applyAll cmds es config := by
  induction ds generalizing config with
  | nil => rfl
  | cons d ds ih =>
    simp only [List.cons_append, applyAll]
    obtain ⟨config', res⟩ := applyEvent cmds config d
    cases res with
    | none => exact ih config'
    | some e => rfl

variable (fs) in
theorem openTop_spec (s : ConfSys σ) :
    match (s.toSys fs).openTop (docs fs) 1024 with
    | .error (.missing fn) => s.openTop fs = .error fn
    | .error .tooDeep => ∃ s', s.openTop fs = .ok s' ∧ 1024 < s'.arr.length ∧ s'.config = s.config
    | .ok t => ∃ s', s.openTop fs = .ok s' ∧ s'.arr.length ≤ 1024 ∧ s'.config = s.config ∧ s'.toSys fs = t := by
  obtain ⟨arr, ari, config, opened, closed⟩ := s
  cases ari with
  | nil =>
    simp only [ConfSys.toSys, Sys.openTop, List.length_map]
    by_cases hdeep : 1024 < arr.length
    · rw [if_pos hdeep]
      exact ⟨⟨arr, [], config, opened, closed⟩, rfl, hdeep, rfl⟩
    · rw [if_neg hdeep]
      exact ⟨⟨arr, [], config, opened, closed⟩, rfl, Nat.not_lt.mp hdeep, rfl, rfl⟩
  | cons fn ari =>
    simp only [ConfSys.toSys, Sys.openTop, List.length_map, docs]
    cases hcontent : fs.contents fn with
    | none => simp [ConfSys.openTop, hcontent]
    | some content =>
      have hopen : ConfSys.openTop fs ⟨arr, fn :: ari, config, opened, closed⟩ =
          .ok ⟨xmPcfgOpenfile fn content :: arr, ari, config, opened ++ [fn], closed⟩ := by
        simp [ConfSys.openTop, hcontent]
      simp only [Option.map_some]
      by_cases hdeep : 1024 < arr.length + 1
      · rw [if_pos hdeep]
        exact ⟨_, hopen, hdeep, rfl⟩
      · rw [if_neg hdeep]
        exact ⟨_, hopen, Nat.not_lt.mp hdeep, rfl, rfl⟩

variable (fs cmds) in
/-- A round that reads: it ends the run with a message, or leads to the state of the machine. -/
theorem readTop_spec (s : ConfSys σ) (hne : s.arr ≠ []) :
    match applyAll cmds (s.toSys fs).readTop.1 s.config with
    | (config, some e) => ∃ r, s.readTop fs cmds = .done r ∧ r.config = config ∧ r.errmsg = some e
    | (config, none) => ∃ s', s.readTop fs cmds = .next s' ∧ s'.config = config ∧
        s'.toSys fs = (s.toSys fs).readTop.2 := by
  obtain ⟨arr, ari, config, opened, closed⟩ := s
  obtain ⟨file, arr, rfl⟩ := List.exists_cons_of_ne_nil hne
  have hspec := readCommands_spec fs cmds file config
  have hds : (ConfSys.toSys fs ⟨file :: arr, ari, config, opened, closed⟩).readTop.1 =
      (untilInclude (fileLines fs file)).1 := readTop_fst
  rw [hds]
  cases happly : applyAll cmds (untilInclude (fileLines fs file)).1 config with
  | mk config' res =>
    rw [happly] at hspec
    cases res with
    | some e =>
      dsimp only at hspec
      exact ⟨ConfSys.exit ⟨file :: arr, ari, config', opened, closed⟩ (some e), by simp [ConfSys.readTop, hspec],
        rfl, rfl⟩
    | none =>
      cases hnext : (untilInclude (fileLines fs file)).2 with
      | none =>
        rw [hnext] at hspec
        dsimp only at hspec
        exact ⟨⟨arr, ari, config', opened, closed ++ [file.name]⟩, by simp [ConfSys.readTop, hspec], rfl,
          (readTop_of_none hnext).symm⟩
      | some next =>
        obtain ⟨names, rest⟩ := next
        rw [hnext] at hspec
        obtain ⟨file', rfl, hread⟩ := hspec
        exact ⟨⟨file' :: arr, names.reverse ++ ari, config', opened, closed⟩, by simp [ConfSys.readTop, hread], rfl,
          (readTop_of_some hnext).symm⟩

variable {s s' : ConfSys σ} {r r' : ConfResult σ}

theorem rounds_done (h : s.round fs cmds = .done r) : s.rounds fs cmds 1 = some r := by
  rw [ConfSys.rounds, h]

theorem rounds_next (h : s.round fs cmds = .next s') (n : Nat) : s.rounds fs cmds (n + 1) = s'.rounds fs cmds n := by
  rw [ConfSys.rounds, h]

theorem rounds_unique {n m : Nat} (h : s.rounds fs cmds n = some r) (h' : s.rounds fs cmds m = some r') : r' = r := by
  induction n generalizing s m with
  | zero => cases h
  | succ n ih =>
    cases m with
    | zero => cases h'
    | succ m =>
      cases hround : s.round fs cmds with
      | done r'' =>
        rw [ConfSys.rounds, hround] at h h'
        exact Option.some.inj (h'.symm.trans h)
      | next s' =>
        rw [rounds_next hround] at h h'
        exact ih h h'

variable (cmds) in
/-- The loop over the files ends where the machine does, or with an earlier message. -/
theorem rounds_of_runs {t : Sys Event CStr} {ds : List Event} {res : Option (Failure CStr)}
    (h : Runs (docs fs) 1024 t ds res) (ht : s.toSys fs = t) :
    ∃ n r, s.rounds fs cmds n = some r ∧ (r.config, r.errmsg) = outcome cmds (ds, res) s.config := by
  induction h generalizing s with
  | finished =>
    obtain ⟨arr, ari, config, opened, closed⟩ := s
    simp only [ConfSys.toSys, Sys.mk.injEq, List.map_eq_nil_iff] at ht
    obtain ⟨rfl, rfl⟩ := ht
    have hround : ConfSys.round fs cmds ⟨[], [], config, opened, closed⟩ =
        .done (ConfSys.exit ⟨[], [], config, opened, closed⟩ none) := if_pos ⟨rfl, rfl⟩
    exact ⟨1, _, rounds_done hround, rfl⟩
  | @failed t e hopen =>
    subst ht
    have hne : ¬ (s.ari = [] ∧ s.arr = []) := by
      rintro ⟨hari, harr⟩
      simp [ConfSys.toSys, Sys.openTop, hari, harr] at hopen
    have hspec := openTop_spec fs s
    rw [hopen] at hspec
    cases e with
    | missing fn =>
      have hround : s.round fs cmds = .done (s.exit (some (failureText (.missing fn)))) := by
        rw [ConfSys.round, if_neg hne, hspec]
        rfl
      exact ⟨1, _, rounds_done hround, rfl⟩
    | tooDeep =>
      obtain ⟨s', hs', hdeep, hconfig⟩ := hspec
      have hround : s.round fs cmds = .done (s'.exit (some (failureText .tooDeep))) := by
        rw [ConfSys.round, if_neg hne, hs']
        exact if_pos hdeep
      exact ⟨1, _, rounds_done hround, by rw [← hconfig]; rfl⟩
  | @round t t' ds res hne hopen hruns ih =>
    subst ht
    have hspec := openTop_spec fs s
    rw [hopen] at hspec
    obtain ⟨s', hs', hdeep, hconfig, rfl⟩ := hspec
    have harr : s'.arr ≠ [] := fun h => hne (by simp [ConfSys.toSys, h])
    have hsome : ¬ (s.ari = [] ∧ s.arr = []) := by
      rintro ⟨hari, harr'⟩
      rw [ConfSys.openTop, hari] at hs'
      cases hs'
      exact harr harr'
    -- the file that is read may be the one that was opened or one that waited for it
    have hround : s.round fs cmds = s'.readTop fs cmds := by
      rw [ConfSys.round, if_neg hsome, hs']
      exact if_neg (Nat.not_lt.mpr hdeep)
    have hread := readTop_spec fs cmds s' harr
    -- a message of these lines ends the loop before the machine is done
    rw [outcome, applyAll_append, ← hconfig]
    cases happly : applyAll cmds (s'.toSys fs).readTop.1 s'.config with
    | mk config' res' =>
      rw [happly] at hread
      cases res' with
      | some e =>
        obtain ⟨r, hr, rfl, hmsg⟩ := hread
        exact ⟨1, r, rounds_done (hround.trans hr), by rw [hmsg]⟩
      | none =>
        obtain ⟨s'', hs'', rfl, ht⟩ := hread
        obtain ⟨n, r, hr, hout⟩ := ih ht
        exact ⟨n + 1, r, (rounds_next (hround.trans hs'') n).trans hr, hout⟩

/-! ## Open files -/

/-- What was opened is closed or on the stack. -/
def ConfSys.Owed (s : ConfSys σ) : Prop := s.opened.Perm (s.closed ++ s.arr.map ConfigFile.name)

theorem ConfSys.Owed.openTop (h : s.Owed) (hopen : s.openTop fs = .ok s') : s'.Owed := by
  unfold ConfSys.openTop at hopen
  split at hopen
  · cases hopen
    exact h
  · next fn ari _ =>
    split at hopen
    · cases hopen
    · cases hopen
      have hfn : (s.closed ++ s.arr.map ConfigFile.name ++ [fn]).Perm
          (s.closed ++ fn :: s.arr.map ConfigFile.name) := by
        rw [List.append_assoc]
        exact (List.perm_append_singleton fn _).append_left s.closed
      exact (List.Perm.append_right [fn] h).trans hfn

theorem ConfSys.Owed.readTop (h : s.Owed) :
    match s.readTop fs cmds with
    | .next s' => s'.Owed
    | .done r => r.opened.Perm r.closed := by
  obtain ⟨arr, ari, config, opened, closed⟩ := s
  cases arr with
  | nil => exact h
  | cons file arr =>
    cases hread : readCommands fs cmds file config with
    | mk config' next =>
      simp only [ConfSys.readTop, hread]
      cases next with
      | endOfFile => simpa [ConfSys.Owed] using h
      | included file' names => simpa [ConfSys.Owed, readCommands_name hread] using h
      | failed e => exact h

variable (fs cmds) in
theorem ConfSys.Owed.round (h : s.Owed) :
    match s.round fs cmds with
    | .next s' => s'.Owed
    | .done r => r.opened.Perm r.closed := by
  by_cases hempty : s.ari = [] ∧ s.arr = []
  · rw [ConfSys.round, if_pos hempty]
    exact h
  · rw [ConfSys.round, if_neg hempty]
    cases hopen : s.openTop fs with
    | error fn => exact h
    | ok s' =>
      dsimp only
      by_cases hdeep : 1024 < s'.arr.length
      · rw [if_pos hdeep]
        exact h.openTop hopen
      · rw [if_neg hdeep]
        exact (h.openTop hopen).readTop

theorem ConfSys.Owed.rounds {n : Nat} (h : s.Owed) (hr : s.rounds fs cmds n = some r) : r.opened.Perm r.closed := by
  induction n generalizing s with
  | zero => cases hr
  | succ n ih =>
    have hround := h.round fs cmds
    cases hs : s.round fs cmds with
    | done r' =>
      rw [hs] at hround
      rw [ConfSys.rounds, hs] at hr
      cases hr
      exact hround
    | next s' =>
      rw [hs] at hround
      rw [rounds_next hs] at hr
      exact ih hround hr

/-! ## Results -/

section
variable {filename : CStr} {names : List CStr} {config : σ} {errmsg : CStr}

theorem processCommandConfig_error (herror : xmPopulateIncludeFiles fs filename false = .error errmsg) :
    ProcessCommandConfig fs cmds filename config r ↔ r = ⟨some errmsg, config, [], []⟩ := by
  rw [ProcessCommandConfig, herror]

theorem processCommandConfig_ok (hnames : xmPopulateIncludeFiles fs filename false = .ok names) :
    ProcessCommandConfig fs cmds filename config r ↔
      ∃ n, ConfSys.rounds fs cmds n ⟨[], names.reverse, config, [], []⟩ = some r := by
  rw [ProcessCommandConfig, hnames]

variable (cmds config) in
/-- The call returns what the machine reads. -/
theorem processCommandConfig_of_names (hnames : xmPopulateIncludeFiles fs filename false = .ok names) :
    ∃ r, ProcessCommandConfig fs cmds filename config r ∧
      (r.config, r.errmsg) = outcome cmds (exec (docs fs) 1023 [] names.reverse) config := by
  have hruns : Runs (docs fs) 1024 ⟨[], names.reverse⟩ _ _ := runs_start rfl names.reverse
  have hsys : ConfSys.toSys fs ⟨[], names.reverse, config, [], []⟩ = ⟨[], names.reverse⟩ := rfl
  obtain ⟨n, r, hr, hout⟩ := rounds_of_runs cmds hruns hsys
  exact ⟨r, (processCommandConfig_ok hnames).mpr ⟨n, hr⟩, hout⟩

theorem processCommandConfig_unique (h : ProcessCommandConfig fs cmds filename config r)
    (h' : ProcessCommandConfig fs cmds filename config r') : r' = r := by
  cases hnames : xmPopulateIncludeFiles fs filename false with
  | error e =>
    rw [processCommandConfig_error hnames] at h h'
    exact h'.trans h.symm
  | ok names =>
    obtain ⟨n, hn⟩ := (processCommandConfig_ok hnames).mp h
    obtain ⟨m, hm⟩ := (processCommandConfig_ok hnames).mp h'
    exact rounds_unique hn hm

theorem processCommandConfig_closed (h : ProcessCommandConfig fs cmds filename config r) :
    r.opened.Perm r.closed := by
  cases hnames : xmPopulateIncludeFiles fs filename false with
  | error e =>
    rw [processCommandConfig_error hnames] at h
    rw [h]
  | ok names =>
    obtain ⟨n, hn⟩ := (processCommandConfig_ok hnames).mp h
    have howed : ConfSys.Owed ⟨[], names.reverse, config, [], []⟩ := List.Perm.refl []
    exact howed.rounds hn

end

theorem outcome_eq_none {out : List Event × Option (Failure CStr)} {config config' : σ}
    (h : outcome cmds out config = (config', none)) :
    out.2 = none ∧ applyAll cmds out.1 config = (config', none) := by
  obtain ⟨ds, res⟩ := out
  cases happly : applyAll cmds ds config with
  | mk config'' e =>
    rw [outcome, happly] at h
    cases e with
    | some e => cases h
    | none =>
      have hconfig : config'' = config' := congrArg Prod.fst h
      have hres : res.map failureText = none := congrArg Prod.snd h
      exact ⟨Option.map_eq_none_iff.mp hres, by rw [hconfig]⟩

end

section
variable {σ : Type} (fs : FileSys) (cmds : List (CommandRec σ)) (filename : CStr) (config : σ)

/-- `xm_process_command_config` returns for any files, also for files that include themselves, and has then closed
each file as often as it opened it. -/
theorem processCommandConfig_returns :
    (∃! r, ProcessCommandConfig fs cmds filename config r) ∧
      ∀ r, ProcessCommandConfig fs cmds filename config r → r.opened.Perm r.closed := by
  refine ⟨?_, fun r h => processCommandConfig_closed h⟩
  cases hnames : xmPopulateIncludeFiles fs filename false with
  | error e =>
    exact ⟨_, (processCommandConfig_error hnames).mpr rfl, fun r' => (processCommandConfig_error hnames).mp⟩
  | ok names =>
    obtain ⟨r, h, -⟩ := processCommandConfig_of_names cmds config hnames
    exact ⟨r, h, fun r' => processCommandConfig_unique h⟩

/-- Where it returns `NULL`, the directives were applied that the files say in place, each as often. -/
theorem processCommandConfig_expands : ∃ r, ProcessCommandConfig fs cmds filename config r ∧
    (r.errmsg = none → ∃ names ds es, xmPopulateIncludeFiles fs filename false = .ok names ∧
      Expands (docs fs) [.includes names] ds ∧ es.Perm ds ∧ applyAll cmds es config = (r.config, none)) := by
  cases hnames : xmPopulateIncludeFiles fs filename false with
  | error e => exact ⟨_, (processCommandConfig_error hnames).mpr rfl, fun h => by cases h⟩
  | ok names =>
    obtain ⟨r, h, hout⟩ := processCommandConfig_of_names cmds config hnames
    refine ⟨r, h, fun hnone => ?_⟩
    rw [hnone] at hout
    obtain ⟨hres, happly⟩ := outcome_eq_none hout.symm
    obtain ⟨ds, es, hnil, hexpands, hperm⟩ := exec_perm hres
    cases hnil
    obtain ⟨ds, hds, hperm'⟩ := expands_includes_reverse hexpands
    exact ⟨names, ds, _, rfl, hds, hperm.trans hperm', happly⟩

/-- Where no line includes more than one file, it does what the files say in place, up to the first message. -/
theorem processCommandConfig_inPlace {fn : CStr} (hfile : xmPopulateIncludeFiles fs filename false = .ok [fn])
    (hsingle : ∀ fn l, docs fs fn = some l → Single l) : ∃ r, ProcessCommandConfig fs cmds filename config r ∧
      (r.config, r.errmsg) = outcome cmds (inPlace (docs fs) 1024 [.includes [fn]]) config := by
  obtain ⟨r, h, hout⟩ := processCommandConfig_of_names cmds config hfile
  have hexec : exec (docs fs) 1023 [] [fn].reverse = inPlace (docs fs) 1024 [.includes [fn]] := exec_name hsingle
  exact ⟨r, h, hexec ▸ hout⟩

end

/-- A file that includes another one. -/
def twoFiles : FileSys where
  contents := fun fn =>
    if fn = ['a'] then some "Include b".toList
    else if fn = ['b'] then some "User x".toList
    else none
  isDirectory := fun _ => false
  entries := fun _ => none
  strerror := fun _ => []

def userCommand : CommandRec CStr where
  name := "User".toList
  func := fun args config =>
    match args with
    | .take1 w => (w, none)
    | _ => (config, none)
  argsHow := .take1
  errmsg := none

theorem fileLines_including : fileLines twoFiles (xmPcfgOpenfile ['a'] "Include b".toList) = [.includes [['b']]] := by
  have hline : xmCfgGetline MAX_STRING_LEN (xmPcfgOpenfile ['a'] "Include b".toList) =
      (some "Include b".toList, ⟨['a'], [], 1⟩) := by decide +kernel
  have hend : xmCfgGetline MAX_STRING_LEN ⟨['a'], [], 1⟩ = (none, ⟨['a'], [], 2⟩) := by decide +kernel
  have hstmt : stmtOf "Include b".toList = .includes false ['b'] := by decide +kernel
  have hword : xmGetwordConf ['b'] = (['b'], []) := by decide +kernel
  have hnames : includeFiles twoFiles ['a'] false ['b'] = .ok [['b']] := by
    rw [includeFiles, hword]
    rfl
  rw [fileLines_some hline, hstmt]
  simp only [hnames, fileLines_none hend]

theorem fileLines_included :
    fileLines twoFiles (xmPcfgOpenfile ['b'] "User x".toList) =
      [.apply (.directive ['b'] 1 "User".toList ['x'])] := by
  have hline : xmCfgGetline MAX_STRING_LEN (xmPcfgOpenfile ['b'] "User x".toList) =
      (some "User x".toList, ⟨['b'], [], 1⟩) := by decide +kernel
  have hend : xmCfgGetline MAX_STRING_LEN ⟨['b'], [], 1⟩ = (none, ⟨['b'], [], 2⟩) := by decide +kernel
  have hstmt : stmtOf "User x".toList = .directive "User".toList ['x'] := by decide +kernel
  rw [fileLines_some hline, hstmt]
  simp only [fileLines_none hend]

theorem twoFiles_single {fn : CStr} {l : List (Line Event CStr)} (h : docs twoFiles fn = some l) : Single l := by
  obtain ⟨content, hcontent, rfl⟩ := Option.map_eq_some_iff.mp h
  have hcases : fn = ['a'] ∧ content = "Include b".toList ∨ fn = ['b'] ∧ content = "User x".toList := by
    simp only [twoFiles] at hcontent
    split at hcontent
    · next ha => exact .inl ⟨ha, (Option.some.inj hcontent).symm⟩
    · split at hcontent
      · next hb => exact .inr ⟨hb, (Option.some.inj hcontent).symm⟩
      · cases hcontent
  intro fs hfs
  rcases hcases with ⟨rfl, rfl⟩ | ⟨rfl, rfl⟩
  · rw [fileLines_including] at hfs
    obtain rfl := Line.includes.inj (List.mem_singleton.mp hfs)
    exact le_rfl
  · rw [fileLines_included] at hfs
    cases List.mem_singleton.mp hfs

theorem processCommandConfig_inPlace_twoFiles : ∃ r, ProcessCommandConfig twoFiles [userCommand] ['a'] [] r ∧
    (r.config, r.errmsg) = outcome [userCommand] (inPlace (docs twoFiles) 1024 [.includes [['a']]]) [] :=
  processCommandConfig_inPlace twoFiles [userCommand] ['a'] [] rfl fun _ _ => twoFiles_single

end Xmap.Config
