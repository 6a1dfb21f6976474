import Xmap.Config.Fnmatch

/-!
# Files that an include names (`xm_populate_include_files`)

A path without wildcards is taken as it is. Otherwise the directories are walked, one component of the path at a time,
and a directory at its end stands for the files below it.
-/

namespace Xmap.Config

open Xmap.Target (CStr)

/-- What the files of the host look like while they are read. -/
structure FileSys where
  /-- the content, where the file opens -/
  contents : CStr → Option CStr
  isDirectory : CStr → Bool
  /-- the names in a directory, with whether each is a directory, where it opens -/
  entries : CStr → Option (List (CStr × Bool))
  /-- `xm_strerror`, where it does not -/
  strerror : CStr → CStr

/-- The flags of `xm_process_resource_config_fnmatch`. -/
def includeFlags : FnmFlags := ⟨true, true, true, false⟩

def xmMakeFullPath (src1 src2 : CStr) : CStr :=
  if src1 = [] then '/' :: src2
  else if src1.getLast? = some '/' then src1 ++ src2
  else src1 ++ '/' :: src2

/-- `fname_alphasort`. -/
def fnameAlphasort (fn1 fn2 : CStr) : Bool := decide (fn1.map Char.toNat ≤ fn2.map Char.toNat)

def isDots (name : CStr) : Bool := name == ['.'] || name == ['.', '.']

def couldNotOpen (fs : FileSys) (path : CStr) : CStr :=
  "Could not open config directory ".toList ++ path ++ ": ".toList ++ fs.strerror path

/-- The files below a path, with the levels of directories that are left. -/
def xmProcessResourceConfigNofnmatch (fs : FileSys) : Nat → CStr → Except CStr (List CStr)
  | levels, fname =>
    if fs.isDirectory fname then
      match levels with
      | 0 =>
        .error ("Directory ".toList ++ fname ++ (" excgwds the maximum include directory nesting level of 100. " ++
          "You have probably a recursion somewhere.").toList)
      | levels + 1 =>
        match fs.entries fname with
        | none => .error (couldNotOpen fs fname)
        | some names => do
          let candidates := (names.filter fun e => !isDots e.1).map fun e => xmMakeFullPath fname e.1
          let found ← (candidates.mergeSort fnameAlphasort).mapM (xmProcessResourceConfigNofnmatch fs levels)
          .ok found.flatten
    else .ok [fname]

/-- The first component of a path and what is behind its slash, or its backslash where it has no slash. -/
def splitPath (fname : CStr) : CStr × Option CStr :=
  let slash := if '/' ∈ fname then '/' else '\\'
  if slash ∈ fname then (fname.takeWhile (· != slash), some (fname.dropWhile (· != slash)).tail) else (fname, none)

theorem splitPath_length {fname component rest : CStr} (h : splitPath fname = (component, some rest)) :
    rest.length < fname.length := by
  unfold splitPath at h
  dsimp only at h
  generalize (if '/' ∈ fname then '/' else '\\') = slash at h
  split at h
  · next hmem =>
    obtain ⟨-, hrest⟩ := Prod.ext_iff.mp h
    obtain rfl := Option.some.inj hrest
    have hpos : 0 < fname.length := List.length_pos_of_mem hmem
    have hle : (fname.dropWhile (· != slash)).length ≤ fname.length := (List.dropWhile_suffix _).length_le
    rw [List.length_tail]
    omega
  · cases h

/-- The entries of a directory that match a component, sorted. In front of others, a component matches directories. -/
def candidates (fs : FileSys) (optional isLast : Bool) (path component : CStr) : Except CStr (List CStr) :=
  match fs.entries path with
  | none => .error (couldNotOpen fs path)
  | some names =>
    let found := ((names.filter fun e => !isDots e.1 && decide (xmFnmatch includeFlags component e.1 = 0) &&
      (isLast || e.2)).map fun e => xmMakeFullPath path e.1).mergeSort fnameAlphasort
    if found = [] ∧ !optional then
      .error ("No matches for the wildcard '".toList ++ component ++ "' in '".toList ++ path ++
        "', failing (use IncludeOptional if required)".toList)
    else .ok found

/-- The files below a path whose components match, from the directory `path` on. -/
def xmProcessResourceConfigFnmatch (fs : FileSys) (optional : Bool) (path fname : CStr) : Except CStr (List CStr) :=
  match _h : splitPath fname with
  | (component, none) =>
    if !xmFnmatchTest component then xmProcessResourceConfigNofnmatch fs 100 (xmMakeFullPath path component)
    else
      match candidates fs optional true path component with
      | .error e => .error e
      | .ok found => (found.mapM (xmProcessResourceConfigNofnmatch fs 100)).map List.flatten
  | (component, some rest) =>
    if !xmFnmatchTest component then xmProcessResourceConfigFnmatch fs optional (xmMakeFullPath path component) rest
    else
      match candidates fs optional false path component with
      | .error e => .error e
      | .ok found => (found.mapM fun c => xmProcessResourceConfigFnmatch fs optional c rest).map List.flatten
termination_by fname.length
decreasing_by all_goals exact splitPath_length _h

/-- `xm_populate_include_files` and `xm_process_fnmatch_configs`: the files that are pushed, in their order. -/
def xmPopulateIncludeFiles (fs : FileSys) (fname : CStr) (optional : Bool) : Except CStr (List CStr) :=
  if !xmFnmatchTest fname then .ok [fname]
  else if deref fname = '/' then xmProcessResourceConfigFnmatch fs optional ['/'] (fname.dropWhile (· == '/'))
  else .error ("Include must have an absolute path, ".toList ++ fname)

end Xmap.Config
