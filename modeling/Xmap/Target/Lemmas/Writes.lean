import Xmap.Lib.BlockCover
import Xmap.Target.Lemmas.IpTreeIndex
import Xmap.Target.Wblist

/-!
# What the entries of a list write

Every entry of a list, once parsed, is a sequence of prefixes added to the tree with one value; an
entry that is not parsed adds nothing.
-/

namespace Xmap.Target

open Xmap.Lib

/-- A prefix that `_add_iptree` adds, in host byte order. -/
structure Write where
  pfx : Nat
  len : Nat
deriving DecidableEq, Repr

namespace Write

def block (w : Write) : Block := ⟨bits w.pfx, w.len⟩

/-- The bounds that the parser keeps. -/
structure Ok (w : Write) : Prop where
  pfx_lt : w.pfx < 2 ^ 32
  len_le : w.len ≤ 256

end Write

theorem ntohl_lt (a : Nat) : ntohl a < 2 ^ 32 := by
  unfold ntohl
  omega

theorem ntohl_bytes {b₀ b₁ b₂ b₃ : Nat} (h₀ : b₀ < 256) (h₁ : b₁ < 256) (h₂ : b₂ < 256)
    (h₃ : b₃ < 256) :
    ntohl (b₀ * 2 ^ 24 + b₁ * 2 ^ 16 + b₂ * 2 ^ 8 + b₃) =
      b₃ * 2 ^ 24 + b₂ * 2 ^ 16 + b₁ * 2 ^ 8 + b₀ := by
  unfold ntohl
  omega

theorem ntohl_ntohl {a : Nat} (h : a < 2 ^ 32) : ntohl (ntohl a) = a := by
  have hb : ∀ x, x % 256 < 256 := fun x => Nat.mod_lt x (by decide)
  rw [ntohl.eq_1 a, ntohl_bytes (hb _) (hb _) (hb _) (hb _)]
  omega

theorem ntohl_inj {a b : Nat} (ha : a < 2 ^ 32) (hb : b < 2 ^ 32) (h : ntohl a = ntohl b) :
    a = b := by
  rw [← ntohl_ntohl ha, h, ntohl_ntohl hb]

/-! ## Entries -/

def resolvedWrites (len : Nat) : List AddrInfo → List Write
  | [] => []
  | .other :: res => resolvedWrites len res
  | .inet sAddr :: res => ⟨ntohl sAddr, len⟩ :: resolvedWrites len res

def addressWrites (h : Host) (ip : CStr) (len : Nat) : List Write :=
  match h.inetAton ip with
  | some sAddr => [⟨ntohl sAddr, len⟩]
  | none =>
    match h.getaddrinfo ip with
    | some res => resolvedWrites len res
    | none => []

/-- The prefixes that an entry adds; none when it is not parsed. -/
def entryWrites (h : Host) (ip : CStr) : List Write :=
  match splitSlash ip with
  | (ip, none) => addressWrites h ip 256
  | (ip, some len) =>
    let r := strtol len
    let prefixLen := toInt32 r.value
    if !r.converted ∨ r.erange ∨ prefixLen < 0 ∨ prefixLen > 256 then []
    else addressWrites h ip prefixLen.toNat

/-- Adds the prefixes in order. -/
def applyWrites (value : Nat) (t : XmIptree) (ws : List Write) : XmIptree :=
  ws.foldl (fun t w => xmIptreeAdd t w.pfx w.len value) t

@[simp] theorem applyWrites_nil (value : Nat) (t : XmIptree) : applyWrites value t [] = t := rfl

@[simp] theorem applyWrites_cons (value : Nat) (t : XmIptree) (w : Write) (ws : List Write) :
    applyWrites value t (w :: ws) = applyWrites value (xmIptreeAdd t w.pfx w.len value) ws := rfl

theorem applyWrites_append (value : Nat) (t : XmIptree) (ws ws' : List Write) :
    applyWrites value t (ws ++ ws') = applyWrites value (applyWrites value t ws) ws' :=
  List.foldl_append

theorem addResolved_eq (len value : Nat) (t : XmIptree) (ret : Int) (res : List AddrInfo) :
    addResolved len value t ret res =
      (applyWrites value t (resolvedWrites len res),
        if (resolvedWrites len res).isEmpty then ret else 0) := by
  induction res generalizing t ret with
  | nil => rfl
  | cons a res ih => cases a with
    | other => simp [addResolved, resolvedWrites, ih]
    | inet sAddr => simp [addResolved, resolvedWrites, ih, addIptree]

theorem initFromAddress_eq (h : Host) (t : XmIptree) (ip : CStr) (len value : Nat) :
    initFromAddress h t ip len value =
      (applyWrites value t (addressWrites h ip len),
        if (addressWrites h ip len).isEmpty then -1 else 0) := by
  unfold initFromAddress addressWrites
  cases h.inetAton ip with
  | some sAddr => simp [addIptree]
  | none =>
    cases h.getaddrinfo ip with
    | none => simp
    | some res => simp [addResolved_eq]

/-- `init_from_string` adds the prefixes of the entry and fails exactly when there are none. -/
theorem initFromString_eq (h : Host) (t : XmIptree) (ip : CStr) (value : Nat) :
    initFromString h t ip value =
      (applyWrites value t (entryWrites h ip), if (entryWrites h ip).isEmpty then -1 else 0) := by
  unfold initFromString entryWrites
  rcases splitSlash ip with ⟨ip, _ | len⟩
  · exact initFromAddress_eq h t ip 256 value
  · dsimp only
    split
    · simp
    · rename_i hn
      have hlen : ((toInt32 (strtol len).value).toNat : Int) = toInt32 (strtol len).value :=
        Int.toNat_of_nonneg (by omega)
      rw [← initFromAddress_eq, hlen]

theorem addressWrites_ok {h : Host} {ip : CStr} {len : Nat} (hlen : len ≤ 256) {w : Write}
    (hw : w ∈ addressWrites h ip len) : w.Ok := by
  have hres : ∀ res : List AddrInfo, w ∈ resolvedWrites len res → w.Ok := by
    intro res hw
    induction res with
    | nil => simp [resolvedWrites] at hw
    | cons a res ih => cases a with
      | other => exact ih (by simpa [resolvedWrites] using hw)
      | inet sAddr =>
        rcases List.mem_cons.mp hw with rfl | hw
        · exact ⟨ntohl_lt _, hlen⟩
        · exact ih hw
  unfold addressWrites at hw
  split at hw
  · rw [List.mem_singleton.mp hw]
    exact ⟨ntohl_lt _, hlen⟩
  · split at hw
    · exact hres _ hw
    · simp at hw

theorem entryWrites_ok {h : Host} {ip : CStr} {w : Write} (hw : w ∈ entryWrites h ip) : w.Ok := by
  unfold entryWrites at hw
  split at hw
  · exact addressWrites_ok (by omega) hw
  · dsimp only at hw
    split at hw
    · simp at hw
    · exact addressWrites_ok (by omega) hw

theorem entryWrites_any (h : Host) : entryWrites h "0.0.0.0".toList = [⟨0, 256⟩] := by
  have hs : splitSlash "0.0.0.0".toList = ("0.0.0.0".toList, none) := by decide
  rw [entryWrites, hs]
  dsimp only
  rw [addressWrites, h.inetAton_any]
  rfl

/-! ## Sources -/

/-- The entries of a file that could be opened. -/
def fileEntries (content : CStr) : List CStr := (fileLines content).filterMap lineEntry

/-- The entries of one colour, in the order in which they are read. -/
def sourceEntries (h : Host) (file : Option CStr) (entries : Option CidrArray) : List CStr :=
  ((file.bind h.fopen).map fileEntries).getD [] ++ (entries.map (·.cidrs)).getD []

/-- The prefixes of a list of entries. -/
def writes (h : Host) (ips : List CStr) : List Write := ips.flatMap (entryWrites h)

theorem writes_ok {h : Host} {ips : List CStr} {w : Write} (hw : w ∈ writes h ips) : w.Ok := by
  obtain ⟨ip, _, hw⟩ := List.mem_flatMap.mp hw
  exact entryWrites_ok hw

theorem foldl_initFromString (h : Host) (t : XmIptree) (ips : List CStr) (value : Nat) :
    ips.foldl (fun t ip => (initFromString h t ip value).1) t =
      applyWrites value t (writes h ips) := by
  induction ips generalizing t with
  | nil => rfl
  | cons ip ips ih =>
    rw [List.foldl_cons, ih, initFromString_eq, writes, writes, List.flatMap_cons,
      applyWrites_append]

theorem initFromFile_fst (h : Host) (t : XmIptree) (file : CStr) (value : Nat) (ign : Bool) :
    (initFromFile h t file value ign).1 =
      applyWrites value t (writes h (((h.fopen file).map fileEntries).getD [])) := by
  unfold initFromFile
  cases h.fopen file with
  | none => rfl
  | some content =>
    simp only [Option.map_some, Option.getD_some, ← foldl_initFromString, fileEntries,
      List.foldl_filterMap]
    congr 1
    funext t line
    cases lineEntry line <;> rfl

theorem initSources_eq (h : Host) (t : XmIptree) (file : Option CStr)
    (entries : Option CidrArray) (value : Nat) (ign : Bool) :
    initSources h t file entries value ign =
      applyWrites value t (writes h (sourceEntries h file entries)) := by
  have harr : ∀ (t : XmIptree) (a : CidrArray),
      initFromArray h t a value ign = applyWrites value t (writes h a.cidrs) :=
    fun t a => foldl_initFromString h t a.cidrs value
  rw [sourceEntries, writes, List.flatMap_append, applyWrites_append]
  cases file with
  | none => cases entries with
    | none => rfl
    | some a => exact harr t a
  | some f => cases entries with
    | none => exact initFromFile_fst h t f value ign
    | some a =>
      simp only [initSources, harr, initFromFile_fst, writes, Option.bind_some, Option.map_some,
        Option.getD_some]

/-! ## The tree after the writes -/

theorem xmIptreeAdd_toTrie {t : XmIptree} {w : Write} (hw : w.Ok) (value : Nat) :
    (xmIptreeAdd t w.pfx w.len value).root.toTrie =
      Trie.insert value w.len t.root.toTrie (bits w.pfx) := by
  have := hw.len_le
  have hg : ¬ ((w.len : Int) < 0 ∨ (w.len : Int) > 256) := by omega
  simp only [xmIptreeAdd, XmNode.setRecurse, if_neg hg, Int.toNat_natCast]
  exact XmNode.setAt_toTrie _ _ _ _

theorem applyWrites_toTrie {value : Nat} {t : XmIptree} {ws : List Write}
    (hws : ∀ w ∈ ws, w.Ok) :
    (applyWrites value t ws).root.toTrie =
      t.root.toTrie.insertAll value (ws.map Write.block) := by
  induction ws generalizing t with
  | nil => rfl
  | cons w ws ih =>
    rw [applyWrites_cons, ih (fun w' hw' => hws w' (List.mem_cons_of_mem _ hw')),
      xmIptreeAdd_toTrie (hws w List.mem_cons_self), List.map_cons, Trie.insertAll_cons]
    rfl

theorem xmIptreeLookupIp_eq (t : XmIptree) (a : Nat) :
    xmIptreeLookupIp t a = t.root.toTrie.lookup (bits a) := XmNode.lookupIp_eq t.root 32 a

end Xmap.Target
