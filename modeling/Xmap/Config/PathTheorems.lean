import Mathlib.Data.List.TakeWhile
import Xmap.Config.FnmatchTheorems

/-!
# Theorems on included files

The walk over the directories finds the files that the components of a path allow, and no others.
-/

namespace Xmap.Config

open Xmap.Target (CStr)

/-- A file below a path: itself, or below an entry of the directory. -/
inductive Below (fs : FileSys) : CStr → CStr → Prop where
  | file {path : CStr} (h : fs.isDirectory path = false) : Below fs path path
  | entry {path file : CStr} {names : List (CStr × Bool)} {e : CStr × Bool} (hdir : fs.isDirectory path = true)
      (hnames : fs.entries path = some names) (he : e ∈ names) (hdots : isDots e.1 = false)
      (h : Below fs (xmMakeFullPath path e.1) file) : Below fs path file

/-- Where a component leads from a directory. Only the last one may lead to something other than a directory. -/
inductive Leads (fs : FileSys) (isLast : Bool) (path component : CStr) : CStr → Prop where
  | plain (htest : xmFnmatchTest component = false) : Leads fs isLast path component (xmMakeFullPath path component)
  | wildcard {names : List (CStr × Bool)} {e : CStr × Bool} (htest : xmFnmatchTest component = true)
      (hnames : fs.entries path = some names) (he : e ∈ names) (hdots : isDots e.1 = false)
      (hmatch : GlobMatches includeFlags component e.1) (hdir : isLast = true ∨ e.2 = true) :
      Leads fs isLast path component (xmMakeFullPath path e.1)

/-- A file that a path names from a directory on. -/
inductive Named (fs : FileSys) : CStr → CStr → CStr → Prop where
  | last {path fname component next file : CStr} (hsplit : splitPath fname = (component, none))
      (hleads : Leads fs true path component next) (h : Below fs next file) : Named fs path fname file
  | more {path fname component rest next file : CStr} (hsplit : splitPath fname = (component, some rest))
      (hleads : Leads fs false path component next) (h : Named fs next rest file) : Named fs path fname file

section
variable {fs : FileSys} {optional : Bool} {path fname component file : CStr} {files : List CStr}

/-- The calls for some paths, where each finds what it should. -/
theorem mem_flatten_mapM {f : CStr → Except CStr (List CStr)} {P : CStr → Prop} {candidates : List CStr}
    {found : List (List CStr)} (h : candidates.mapM f = .ok found)
    (hf : ∀ c ys, f c = .ok ys → (file ∈ ys ↔ P c)) : file ∈ found.flatten ↔ ∃ c ∈ candidates, P c := by
  induction candidates generalizing found with
  | nil =>
    cases h
    simp
  | cons c candidates ih =>
    rw [List.mapM_cons] at h
    cases hc : f c with
    | error e =>
      rw [hc] at h
      cases h
    | ok ys =>
      cases hcs : candidates.mapM f with
      | error e =>
        rw [hc, hcs] at h
        cases h
      | ok found' =>
        rw [hc, hcs] at h
        cases h
        rw [List.flatten_cons, List.mem_append, ih hcs, hf c ys hc, List.exists_mem_cons_iff]

theorem mem_map_flatten_mapM {f : CStr → Except CStr (List CStr)} {P : CStr → Prop} {candidates : List CStr}
    (h : (candidates.mapM f).map List.flatten = .ok files) (hf : ∀ c ys, f c = .ok ys → (file ∈ ys ↔ P c)) :
    file ∈ files ↔ ∃ c ∈ candidates, P c := by
  cases hfound : candidates.mapM f with
  | error e =>
    rw [hfound] at h
    cases h
  | ok found =>
    rw [hfound] at h
    cases h
    exact mem_flatten_mapM hfound hf

/-! ## Directories -/

theorem below_file (hdir : fs.isDirectory path = false) : Below fs path file ↔ file = path := by
  constructor
  · intro h
    cases h with
    | file => rfl
    | entry hdir' =>
      rw [hdir] at hdir'
      cases hdir'
  · rintro rfl
    exact .file hdir

theorem below_directory {names : List (CStr × Bool)} (hdir : fs.isDirectory path = true)
    (hnames : fs.entries path = some names) : Below fs path file ↔
      ∃ c ∈ ((names.filter fun e => !isDots e.1).map fun e => xmMakeFullPath path e.1).mergeSort fnameAlphasort,
        Below fs c file := by
  constructor
  · intro h
    cases h with
    | file hdir' =>
      rw [hdir] at hdir'
      cases hdir'
    | @entry _ _ names' e _ hnames' he hdots h =>
      obtain rfl := Option.some.inj (hnames.symm.trans hnames')
      have hmem : e ∈ names.filter fun e => !isDots e.1 := List.mem_filter.mpr ⟨he, by simp [hdots]⟩
      exact ⟨_, List.mem_mergeSort.mpr (List.mem_map_of_mem hmem), h⟩
  · rintro ⟨c, hc, h⟩
    obtain ⟨e, he, rfl⟩ := List.mem_map.mp (List.mem_mergeSort.mp hc)
    obtain ⟨he, hdots⟩ := List.mem_filter.mp he
    exact .entry hdir hnames he (by simpa using hdots) h

theorem xmProcessResourceConfigNofnmatch_iff {levels : Nat}
    (h : xmProcessResourceConfigNofnmatch fs levels path = .ok files) : file ∈ files ↔ Below fs path file := by
  induction levels generalizing path files with
  | zero =>
    unfold xmProcessResourceConfigNofnmatch at h
    split at h
    · cases h
    · next hdir =>
      cases h
      rw [List.mem_singleton, below_file (by simpa using hdir)]
  | succ levels ih =>
    unfold xmProcessResourceConfigNofnmatch at h
    split at h
    · next hdir =>
      cases hnames : fs.entries path with
      | none =>
        rw [hnames] at h
        cases h
      | some names =>
        rw [hnames] at h
        rw [below_directory hdir hnames]
        exact mem_map_flatten_mapM h fun c ys => ih
    · next hdir =>
      cases h
      rw [List.mem_singleton, below_file (by simpa using hdir)]

/-! ## Components -/

theorem splitPath_component {rest : Option CStr} (h : splitPath fname = (component, rest)) : '/' ∉ component := by
  unfold splitPath at h
  dsimp only at h
  by_cases hslash : '/' ∈ fname
  · rw [if_pos hslash, if_pos hslash] at h
    obtain ⟨rfl, -⟩ := Prod.ext_iff.mp h
    intro hmem
    simpa using List.mem_takeWhile_imp hmem
  · rw [if_neg hslash] at h
    split at h
    · obtain ⟨rfl, -⟩ := Prod.ext_iff.mp h
      exact fun hmem => hslash ((List.takeWhile_prefix _).subset hmem)
    · obtain ⟨rfl, -⟩ := Prod.ext_iff.mp h
      exact hslash

theorem leads_plain {isLast : Bool} {next : CStr} (htest : xmFnmatchTest component = false) :
    Leads fs isLast path component next ↔ next = xmMakeFullPath path component := by
  constructor
  · intro h
    cases h with
    | plain => rfl
    | wildcard htest' =>
      rw [htest] at htest'
      cases htest'
  · rintro rfl
    exact .plain htest

/-- The entries of a directory have no slashes in their names. -/
def FileSys.PlainNames (fs : FileSys) : Prop := ∀ path names, fs.entries path = some names → ∀ e ∈ names, '/' ∉ e.1

theorem mem_candidates {isLast : Bool} {found : List CStr} {next : CStr} (hplain : fs.PlainNames)
    (hcomponent : '/' ∉ component) (htest : xmFnmatchTest component = true)
    (h : candidates fs optional isLast path component = .ok found) :
    next ∈ found ↔ Leads fs isLast path component next := by
  cases hnames : fs.entries path with
  | none =>
    rw [candidates, hnames] at h
    cases h
  | some names =>
    rw [candidates, hnames] at h
    dsimp only at h
    split at h
    · cases h
    · cases h
      rw [List.mem_mergeSort, List.mem_map]
      constructor
      · rintro ⟨e, he, rfl⟩
        obtain ⟨he, hcond⟩ := List.mem_filter.mp he
        simp only [Bool.and_eq_true, Bool.not_eq_true', decide_eq_true_eq, Bool.or_eq_true] at hcond
        obtain ⟨⟨hdots, hzero⟩, hdir⟩ := hcond
        have hmatch := (xmFnmatch_iff (fun _ => hcomponent) fun _ => hplain path names hnames e he).mp hzero
        exact .wildcard htest hnames he hdots hmatch hdir
      · intro h
        cases h with
        | plain htest' =>
          rw [htest] at htest'
          cases htest'
        | @wildcard names' e _ hnames' he hdots hmatch hdir =>
          obtain rfl := Option.some.inj (hnames.symm.trans hnames')
          have hzero := (xmFnmatch_iff (fun _ => hcomponent) fun _ => hplain path names hnames e he).mpr hmatch
          exact ⟨e, List.mem_filter.mpr ⟨he, by simp [hdots, hzero, hdir]⟩, rfl⟩

theorem named_last (hsplit : splitPath fname = (component, none)) :
    Named fs path fname file ↔ ∃ next, Leads fs true path component next ∧ Below fs next file := by
  constructor
  · intro h
    cases h with
    | last hsplit' hleads h =>
      rw [hsplit] at hsplit'
      cases hsplit'
      exact ⟨_, hleads, h⟩
    | more hsplit' =>
      rw [hsplit] at hsplit'
      cases hsplit'
  · rintro ⟨next, hleads, h⟩
    exact .last hsplit hleads h

theorem named_more {rest : CStr} (hsplit : splitPath fname = (component, some rest)) :
    Named fs path fname file ↔ ∃ next, Leads fs false path component next ∧ Named fs next rest file := by
  constructor
  · intro h
    cases h with
    | last hsplit' =>
      rw [hsplit] at hsplit'
      cases hsplit'
    | more hsplit' hleads h =>
      rw [hsplit] at hsplit'
      cases hsplit'
      exact ⟨_, hleads, h⟩
  · rintro ⟨next, hleads, h⟩
    exact .more hsplit hleads h

theorem xmProcessResourceConfigFnmatch_iff (hplain : fs.PlainNames)
    (h : xmProcessResourceConfigFnmatch fs optional path fname = .ok files) :
    file ∈ files ↔ Named fs path fname file := by
  induction hn : fname.length using Nat.strong_induction_on generalizing path fname files with
  | _ n ih =>
    subst hn
    rw [xmProcessResourceConfigFnmatch] at h
    split at h
    · next component hsplit =>
      rw [named_last hsplit]
      split at h
      · next htest =>
        rw [Bool.not_eq_true'] at htest
        simp only [leads_plain htest, exists_eq_left]
        exact xmProcessResourceConfigNofnmatch_iff h
      · next htest =>
        rw [Bool.not_eq_true, Bool.not_eq_false'] at htest
        split at h
        · cases h
        · next found hfound =>
          simp only [← mem_candidates hplain (splitPath_component hsplit) htest hfound]
          exact mem_map_flatten_mapM h fun c ys => xmProcessResourceConfigNofnmatch_iff
    · next component rest hsplit =>
      have hlt := splitPath_length hsplit
      rw [named_more hsplit]
      split at h
      · next htest =>
        rw [Bool.not_eq_true'] at htest
        simp only [leads_plain htest, exists_eq_left]
        exact ih rest.length hlt h rfl
      · next htest =>
        rw [Bool.not_eq_true, Bool.not_eq_false'] at htest
        split at h
        · cases h
        · next found hfound =>
          simp only [← mem_candidates hplain (splitPath_component hsplit) htest hfound]
          exact mem_map_flatten_mapM h fun c ys hc => ih rest.length hlt hc rfl

/-- The files that an include names are those that its wildcards allow, in the directories of the host. -/
theorem xmPopulateIncludeFiles_iff (hplain : fs.PlainNames)
    (h : xmPopulateIncludeFiles fs fname optional = .ok files) : file ∈ files ↔
      xmFnmatchTest fname = false ∧ file = fname ∨
        xmFnmatchTest fname = true ∧ deref fname = '/' ∧ Named fs ['/'] (fname.dropWhile (· == '/')) file := by
  unfold xmPopulateIncludeFiles at h
  split at h
  · next htest =>
    rw [Bool.not_eq_true'] at htest
    cases h
    simp [htest]
  · next htest =>
    rw [Bool.not_eq_true, Bool.not_eq_false'] at htest
    split at h
    · next hroot => simp [htest, hroot, xmProcessResourceConfigFnmatch_iff hplain h]
    · cases h

end

def confDirectory : FileSys where
  contents := fun _ => none
  isDirectory := fun path => path == ['/']
  entries := fun path => if path = ['/'] then some [("b".toList, false), ("a.c".toList, false)] else none
  strerror := fun _ => []

theorem confDirectory_plainNames : confDirectory.PlainNames := by
  intro path names h e he
  unfold confDirectory at h
  dsimp only at h
  split at h
  · cases h
    revert e
    decide
  · cases h

theorem xmPopulateIncludeFiles_iff_confDirectory : "/a.c".toList ∈ ["/a.c".toList] ↔
    xmFnmatchTest "/*.c".toList = false ∧ "/a.c".toList = "/*.c".toList ∨
      xmFnmatchTest "/*.c".toList = true ∧ deref "/*.c".toList = '/' ∧
        Named confDirectory ['/'] ("/*.c".toList.dropWhile (· == '/')) "/a.c".toList := by
  have h : xmPopulateIncludeFiles confDirectory "/*.c".toList false = .ok ["/a.c".toList] := by decide +kernel
  exact xmPopulateIncludeFiles_iff confDirectory_plainNames h

end Xmap.Config
