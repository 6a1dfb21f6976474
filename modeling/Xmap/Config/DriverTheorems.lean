import Xmap.Config.Drivers
import Xmap.Config.WrittenTheorems
import Xmap.Target.Lemmas.Strtol

/-!
# Theorems on the configuration of the drivers

A context that is written as directives is read back.
-/

namespace Xmap.Config

open Xmap.Target (CStr isSpace isSpace_of_isDigit)

/-! ## Numbers -/

theorem strtoul_of_digits {c : Char} {s : CStr} (hdigits : ∀ d ∈ c :: s, d.isDigit = true)
    (hlt : Nat.ofDigitChars 10 (c :: s) 0 < 2 ^ 64) : strtoul (c :: s) = Nat.ofDigitChars 10 (c :: s) 0 := by
  have hc : c.isDigit = true := hdigits c List.mem_cons_self
  have hspace : ¬ isSpace c = true := Bool.eq_false_iff.mp (isSpace_of_isDigit hc)
  rw [strtoul, List.dropWhile_cons_of_neg hspace]
  split
  next neg s' heq =>
    split at heq
    · next h =>
      obtain ⟨rfl, -⟩ := List.cons.inj h
      exact absurd hc (by decide)
    · next h =>
      obtain ⟨rfl, -⟩ := List.cons.inj h
      exact absurd hc (by decide)
    · cases heq
      rw [List.takeWhile_eq_self_iff.mpr hdigits]
      dsimp only
      rw [if_neg (Nat.not_le.mpr hlt)]
      rfl

theorem strtoul_toDigits {n : Nat} (hn : n < 2 ^ 64) : strtoul (Nat.toDigits 10 n) = n := by
  have hvalue : Nat.ofDigitChars 10 (Nat.toDigits 10 n) 0 = n := Nat.ofDigitChars_toDigits (by decide) (by decide)
  have hdigits : ∀ d ∈ Nat.toDigits 10 n, d.isDigit = true :=
    fun d hd => Nat.isDigit_of_mem_toDigits (by decide) (by decide) hd
  have hne : Nat.toDigits 10 n ≠ [] := Nat.toDigits_ne_nil
  obtain ⟨c, s, hs⟩ := List.exists_cons_of_ne_nil hne
  rw [hs] at hvalue hdigits ⊢
  rw [strtoul_of_digits hdigits (hvalue ▸ hn), hvalue]

/-! ## Tables -/

/-- A word that a line takes. -/
structure PlainWord (w : CStr) : Prop where
  ne_nil : w ≠ []
  newline : '\n' ∉ w
  nul : Char.ofNat 0 ∉ w

theorem plainWord_toDigits (n : Nat) : PlainWord (Nat.toDigits 10 n) where
  ne_nil := Nat.toDigits_ne_nil
  newline := fun h => absurd (Nat.isDigit_of_mem_toDigits (by decide) (by decide) h) (by decide)
  nul := fun h => absurd (Nat.isDigit_of_mem_toDigits (by decide) (by decide) h) (by decide)

section
variable {σ : Type} {directives : List (CommandRec σ)} {cmd : CommandRec σ} {w : CStr} {words : List CStr}

/-- A record with one argument and a name of its own. -/
structure Take1Record (directives : List (CommandRec σ)) (cmd : CommandRec σ) : Prop where
  take1 : ∃ (directive : String) (func : CStr → σ → σ) (help : String), cmd = xmInitTake1 directive func help
  found : xmFindCommand cmd.name directives = some cmd
  plain : PlainWord cmd.name
  not_include : strcasecmp cmd.name "Include".toList = false
  not_includeOptional : strcasecmp cmd.name "IncludeOptional".toList = false

/-- A word for each record, in the order of the table. -/
def writeWords (directives : List (CommandRec σ)) (words : List CStr) : List Directive :=
  (directives.zip words).map fun p => ⟨p.1.name, [p.2]⟩

/-- What the words do to a context. -/
def assign (directives : List (CommandRec σ)) (words : List CStr) (config : σ) : σ :=
  (directives.zip words).foldl (fun config p => (p.1.func (.take1 p.2) config).1) config

theorem invokeCmd_take1 (hhow : cmd.argsHow = .take1) (hw : w ≠ []) (config : σ) :
    invokeCmd cmd (quoteLine [w]) config = cmd.func (.take1 w) config := by
  rw [invokeCmd, hhow]
  dsimp only
  rw [xmGetwordConf_quoteLine]
  exact if_neg (by simp [hw, quoteLine])

theorem Take1Record.writable (h : Take1Record directives cmd) (hw : PlainWord w)
    (hlen : (Directive.line ⟨cmd.name, [w]⟩).length + 1 < MAX_STRING_LEN) : Directive.Writable ⟨cmd.name, [w]⟩ where
  name_ne_nil := h.plain.ne_nil
  not_include := h.not_include
  not_includeOptional := h.not_includeOptional
  letters := by
    intro v hv
    rcases List.mem_cons.mp hv with rfl | hv
    · exact ⟨h.plain.newline, h.plain.nul⟩
    · rw [List.mem_singleton.mp hv]
      exact ⟨hw.newline, hw.nul⟩
  length_args := Nat.succ_le_of_lt (by decide)
  last_ne_nil := fun hnil => hw.ne_nil (Option.some.inj hnil)
  length_line := hlen

theorem Take1Record.invoke (h : Take1Record directives cmd) (hw : PlainWord w) (config : σ) :
    invokeCmd cmd (quoteLine [w]) config = ((cmd.func (.take1 w) config).1, none) := by
  obtain ⟨directive, func, help, rfl⟩ := h.take1
  rw [invokeCmd_take1 rfl hw.ne_nil]
  rfl

/-- What the word of a directive does, where the table has its name. -/
def assignWord (directives : List (CommandRec σ)) (d : Directive) (config : σ) : σ :=
  (xmFindCommand d.name directives).elim config fun cmd => (cmd.func (.take1 (d.args.headD [])) config).1

theorem Take1Record.assignWord_eq (h : Take1Record directives cmd) (w : CStr) (config : σ) :
    assignWord directives ⟨cmd.name, [w]⟩ config = (cmd.func (.take1 w) config).1 := by
  rw [assignWord, h.found]
  rfl

theorem contextCreate_writeWords {fs : FileSys} {cfname : CStr} {init : σ}
    (htable : ∀ cmd ∈ directives, Take1Record directives cmd) (hwords : ∀ w ∈ words, PlainWord w) (hne : cfname ≠ [])
    (hpath : xmFnmatchTest cfname = false)
    (hfile : fs.contents cfname = some (writeConfig (writeWords directives words)))
    (hlen : ∀ d ∈ writeWords directives words, d.line.length + 1 < MAX_STRING_LEN) :
    ContextCreate directives init fs cfname (some (assign directives words init)) := by
  have hds : ∀ d ∈ writeWords directives words, d.Writable := by
    intro d hd
    have hline := hlen d hd
    obtain ⟨p, hp, rfl⟩ := List.mem_map.mp hd
    obtain ⟨hcmd, hw⟩ := List.of_mem_zip hp
    exact (htable p.1 hcmd).writable (hwords p.2 hw) hline
  have hcmds : ∀ d ∈ writeWords directives words, ∃ cmd, xmFindCommand d.name directives = some cmd ∧
      ∀ config, invokeCmd cmd (quoteLine d.args) config = (assignWord directives d config, none) := by
    intro d hd
    obtain ⟨p, hp, rfl⟩ := List.mem_map.mp hd
    obtain ⟨hcmd, hw⟩ := List.of_mem_zip hp
    have hrecord := htable p.1 hcmd
    refine ⟨p.1, hrecord.found, fun config => ?_⟩
    rw [hrecord.assignWord_eq]
    exact hrecord.invoke (hwords p.2 hw) config
  obtain ⟨r, h, hnone, hconfig⟩ := processCommandConfig_of_invoke hpath hfile hds hcmds init
  have hassign : r.config = assign directives words init := by
    rw [hconfig, writeWords, List.foldl_map]
    exact List.foldl_ext _ _ _ fun config p hp => (htable p.1 (List.of_mem_zip hp).1).assignWord_eq p.2 config
  rw [ContextCreate, if_neg hne]
  exact ⟨r, h, by rw [if_pos hnone, hassign]⟩

end

/-! ## libpcap -/

theorem pcapContextDirectives_take1 : ∀ cmd ∈ pcapContextDirectives, Take1Record pcapContextDirectives cmd := by
  intro cmd hcmd
  simp only [pcapContextDirectives, List.mem_cons, List.not_mem_nil, or_false] at hcmd
  rcases hcmd with rfl | rfl | rfl | rfl <;>
    exact ⟨⟨_, _, _, rfl⟩, rfl, ⟨by decide, by decide, by decide⟩, by decide, by decide⟩

/-- The words of a context, in the order of the table. -/
def XmIfPcapContext.words (pcontext : XmIfPcapContext) : List CStr :=
  [Nat.toDigits 10 pcontext.snaplen, Nat.toDigits 10 pcontext.waitMs,
    (if pcontext.promiscMode then "on" else "off").toList] ++ pcontext.filterText.toList

/-- A context that its fields have room for. -/
structure XmIfPcapContext.Fits (pcontext : XmIfPcapContext) : Prop where
  snaplen : pcontext.snaplen < 2 ^ 64
  waitMs : pcontext.waitMs < 2 ^ 64
  filterText : ∀ w, pcontext.filterText = some w → PlainWord w

theorem XmIfPcapContext.Fits.plain_words {pcontext : XmIfPcapContext} (h : pcontext.Fits) :
    ∀ w ∈ pcontext.words, PlainWord w := by
  intro w hw
  rcases List.mem_append.mp hw with hw | hw
  · simp only [List.mem_cons, List.not_mem_nil, or_false] at hw
    rcases hw with rfl | rfl | rfl
    · exact plainWord_toDigits _
    · exact plainWord_toDigits _
    · split <;> constructor <;> decide
  · exact h.filterText w (Option.mem_toList.mp hw)

theorem assign_pcapContext {pcontext : XmIfPcapContext} (h : pcontext.Fits) :
    assign pcapContextDirectives pcontext.words pcapContextInit = pcontext := by
  obtain ⟨snaplen, waitMs, promiscMode, filterText⟩ := pcontext
  have hpromisc : strcasecmp (if promiscMode then "on" else "off").toList ['o', 'n'] = promiscMode := by
    cases promiscMode <;> decide
  cases filterText <;>
    simp [assign, XmIfPcapContext.words, pcapContextDirectives, xmInitTake1, cmdSnaplen, cmdWaitMs, cmdPromiscMode,
      cmdFilterText, pcapContextInit, strtoul_toDigits h.snaplen, strtoul_toDigits h.waitMs, hpromisc]

/-- A context of the libpcap driver that is written with the names of its table is read back. -/
theorem xmIfPcapContextCreate_writeWords {fs : FileSys} {cfname : CStr} {pcontext : XmIfPcapContext}
    (h : pcontext.Fits) (hne : cfname ≠ []) (hpath : xmFnmatchTest cfname = false)
    (hfile : fs.contents cfname = some (writeConfig (writeWords pcapContextDirectives pcontext.words)))
    (hlen : ∀ d ∈ writeWords pcapContextDirectives pcontext.words, d.line.length + 1 < MAX_STRING_LEN) :
    XmIfPcapContextCreate fs cfname (some pcontext) := by
  have hcreate : ContextCreate pcapContextDirectives pcapContextInit fs cfname _ :=
    contextCreate_writeWords pcapContextDirectives_take1 h.plain_words hne hpath hfile hlen
  rwa [assign_pcapContext h] at hcreate

theorem pcapContextInit_fits : { pcapContextInit with filterText := some "tcp port 80".toList }.Fits where
  snaplen := by decide
  waitMs := by decide
  filterText := by
    intro w hw
    cases hw
    constructor <;> decide

def pcapFile : FileSys where
  contents := fun fn =>
    if fn = ['a'] then
      some (writeConfig (writeWords pcapContextDirectives
        { pcapContextInit with filterText := some "tcp port 80".toList }.words))
    else none
  isDirectory := fun _ => false
  entries := fun _ => none
  strerror := fun _ => []

theorem xmIfPcapContextCreate_writeWords_filter :
    XmIfPcapContextCreate pcapFile ['a'] (some { pcapContextInit with filterText := some "tcp port 80".toList }) :=
  xmIfPcapContextCreate_writeWords pcapContextInit_fits (by decide) (by decide) rfl (by decide +kernel)

/-! ## PF_RING -/

theorem pfringContextDirectives_take1 :
    ∀ cmd ∈ pfringContextDirectives, Take1Record pfringContextDirectives cmd := by
  intro cmd hcmd
  simp only [pfringContextDirectives, List.mem_cons, List.not_mem_nil, or_false] at hcmd
  rcases hcmd with rfl | rfl | rfl | rfl | rfl | rfl | rfl | rfl | rfl | rfl | rfl <;>
    exact ⟨⟨_, _, _, rfl⟩, rfl, ⟨by decide, by decide, by decide⟩, by decide, by decide⟩

def XmIfPfringContext.numbers (pcontext : XmIfPfringContext) : List Nat :=
  [pcontext.rxNQueue, pcontext.txNQueue, pcontext.rxPerNBuf, pcontext.txPerNBuf, pcontext.rxBufSize,
    pcontext.txBufSize, pcontext.rxQueueLen, pcontext.txQueueLen, pcontext.maxCardSlots, pcontext.clusterId]

/-- The words of a context, in the order of the table. -/
def XmIfPfringContext.words (pcontext : XmIfPfringContext) : List CStr :=
  pcontext.numbers.map (Nat.toDigits 10) ++ pcontext.mntDir.toList

/-- A context that its fields have room for. -/
structure XmIfPfringContext.Fits (pcontext : XmIfPfringContext) : Prop where
  numbers : ∀ n ∈ pcontext.numbers, n < 2 ^ 64
  clusterId : pcontext.clusterId < 2 ^ 32
  mntDir : ∀ w, pcontext.mntDir = some w → PlainWord w

theorem XmIfPfringContext.Fits.plain_words {pcontext : XmIfPfringContext} (h : pcontext.Fits) :
    ∀ w ∈ pcontext.words, PlainWord w := by
  intro w hw
  rcases List.mem_append.mp hw with hw | hw
  · obtain ⟨n, -, rfl⟩ := List.mem_map.mp hw
    exact plainWord_toDigits n
  · exact h.mntDir w (Option.mem_toList.mp hw)

theorem assign_pfringContext {pcontext : XmIfPfringContext} (h : pcontext.Fits) :
    assign pfringContextDirectives pcontext.words ifPfringContextInit = pcontext := by
  have hnumbers : ∀ n ∈ pcontext.numbers, strtoul (Nat.toDigits 10 n) = n :=
    fun n hn => strtoul_toDigits (h.numbers n hn)
  have hcluster := Nat.mod_eq_of_lt h.clusterId
  obtain ⟨_, _, _, _, _, _, _, _, _, clusterId, mntDir⟩ := pcontext
  simp only [XmIfPfringContext.numbers, List.forall_mem_cons] at hnumbers
  cases mntDir <;>
    simp_all [assign, XmIfPfringContext.words, XmIfPfringContext.numbers, pfringContextDirectives, xmInitTake1,
      cmdRxNQueue, cmdTxNQueue, cmdRxPerNBuf, cmdTxPerNBuf, cmdRxBufSize, cmdTxBufSize, cmdRxQueueLen, cmdTxQueueLen,
      cmdMaxCardSlots, cmdClusterId, cmdMntDir, ifPfringContextInit]

/-- A context of the PF_RING driver that is written with the names of its table is read back. -/
theorem xmIfPfringContextCreate_writeWords {fs : FileSys} {cfname : CStr} {pcontext : XmIfPfringContext}
    (h : pcontext.Fits) (hne : cfname ≠ []) (hpath : xmFnmatchTest cfname = false)
    (hfile : fs.contents cfname = some (writeConfig (writeWords pfringContextDirectives pcontext.words)))
    (hlen : ∀ d ∈ writeWords pfringContextDirectives pcontext.words, d.line.length + 1 < MAX_STRING_LEN) :
    XmIfPfringContextCreate fs cfname (some pcontext) := by
  have hcreate : ContextCreate pfringContextDirectives ifPfringContextInit fs cfname _ :=
    contextCreate_writeWords pfringContextDirectives_take1 h.plain_words hne hpath hfile hlen
  rwa [assign_pfringContext h] at hcreate

/-- A context with other numbers than the defaults, and a directory. -/
def hugepagesContext : XmIfPfringContext where
  rxNQueue := 4
  txNQueue := 2
  rxPerNBuf := 256
  txPerNBuf := 64
  rxBufSize := 2048
  txBufSize := 4096
  rxQueueLen := 1024
  txQueueLen := 512
  maxCardSlots := 65536
  clusterId := 7
  mntDir := some "/mnt/huge \"1\"".toList

theorem hugepagesContext_fits : hugepagesContext.Fits where
  numbers := by decide
  clusterId := by decide
  mntDir := by
    intro w hw
    cases hw
    constructor <;> decide

def pfringFile : FileSys where
  contents := fun fn =>
    if fn = ['a'] then some (writeConfig (writeWords pfringContextDirectives hugepagesContext.words)) else none
  isDirectory := fun _ => false
  entries := fun _ => none
  strerror := fun _ => []

theorem xmIfPfringContextCreate_writeWords_hugepages :
    XmIfPfringContextCreate pfringFile ['a'] (some hugepagesContext) :=
  xmIfPfringContextCreate_writeWords hugepagesContext_fits (by decide) (by decide) rfl (by decide +kernel)

end Xmap.Config
