import Xmap.Target.Lemmas.Strtol
import Xmap.Target.WblistTheorems

/-!
# Theorems on the grammar of entries

An entry is an address or an address, a slash and a prefix length. `strtol` also reads blanks, a sign and
what is left behind the number, and the tree takes prefixes of up to 256 bits.
-/

namespace Xmap.Target

open Xmap.Lib

/-- A prefix length: a decimal number up to 32 and nothing else. -/
def prefixLength (len : CStr) : Option Nat :=
  if len ≠ [] ∧ len.all Char.isDigit ∧ decimalValue len ≤ 32 then some (decimalValue len) else none

/-- The entry is an address, or an address with a prefix length. -/
def Grammatical (ip : CStr) : Prop := ∀ len, (splitSlash ip).2 = some len → prefixLength len ≠ none

/-- The address `a` is in the prefix of a grammatical entry for the address `addr`. -/
def InPrefix (ip : CStr) (addr a : Nat) : Prop :=
  match (splitSlash ip).2 with
  | none => a = addr
  | some len => ∃ n, prefixLength len = some n ∧ a / 2 ^ (32 - n) = addr / 2 ^ (32 - n)

/-- The entry is accepted by its grammar, and writes its prefix. -/
structure FollowsGrammar (h : Host) (t : XmIptree) (ip : CStr) (value addr : Nat) : Prop where
  accepted : (initFromString h t ip value).2 = 0 ↔ Grammatical ip
  gains : (initFromString h t ip value).2 = 0 → ∀ a < 2 ^ 32,
    (InPrefix ip addr a → xmIptreeLookupIp (initFromString h t ip value).1 a = value) ∧
      (¬ InPrefix ip addr a →
        xmIptreeLookupIp (initFromString h t ip value).1 a = xmIptreeLookupIp t a)
  unchanged : (initFromString h t ip value).2 = -1 → (initFromString h t ip value).1 = t

/-- `strtol` and the tests after it refuse the prefix length. -/
def Refused (len : CStr) : Prop :=
  (strtol len).converted = false ∨ (strtol len).erange = true ∨ toInt32 (strtol len).value < 0 ∨
    256 < toInt32 (strtol len).value

/-- The bits of the prefix of a grammatical entry. Without a slash there are more of them than an address
has. -/
def entryLength (ip : CStr) : Nat :=
  match (splitSlash ip).2 with
  | none => 256
  | some len => (prefixLength len).getD 0

/-- What is not a prefix length is refused, and at the prefix the tree has no inner node, unless the
addresses of the prefix have the value. -/
structure ReadsStrictly (t : XmIptree) (ip : CStr) (value addr : Nat) : Prop where
  length : ∀ len, (splitSlash ip).2 = some len → prefixLength len = none → Refused len
  node : Grammatical ip → t.root.toTrie.SplitAt (bits addr) (entryLength ip) →
    ∀ a < 2 ^ 32, InPrefix ip addr a → xmIptreeLookupIp t a = value

section
variable {h : Host} {t : XmIptree} {ip len : CStr} {value addr a n : Nat} {sAddr : Fin (2 ^ 32)}

theorem prefixLength_eq_some (hn : prefixLength len = some n) :
    n ≤ 32 ∧ strtol len = { value := n, converted := true, erange := false } := by
  rw [prefixLength] at hn
  by_cases hg : len ≠ [] ∧ len.all Char.isDigit ∧ decimalValue len ≤ 32
  · rw [if_pos hg] at hn
    obtain rfl := Option.some.inj hn
    exact ⟨hg.2.2, strtol_eq_of_digits hg.1 (List.all_eq_true.mp hg.2.1) (by have := hg.2.2; omega)⟩
  · rw [if_neg hg] at hn
    exact absurd hn.symm (Option.some_ne_none n)

theorem not_refused (hn : prefixLength len = some n) : ¬ Refused len ∧ toInt32 (strtol len).value = n := by
  obtain ⟨hle, hs⟩ := prefixLength_eq_some hn
  have hint : toInt32 (n : Int) = n := by
    unfold toInt32
    omega
  rw [Refused, hs]
  refine ⟨?_, hint⟩
  rintro (hc | he | hneg | hbig)
  · exact Bool.false_ne_true hc.symm
  · exact Bool.false_ne_true he
  · dsimp only at hneg
    omega
  · dsimp only at hbig
    omega

/-- An address with a prefix length that is not refused is one write. -/
theorem entryWrites_of_slash (ha : h.inetAton (splitSlash ip).1 = some sAddr)
    (hlen : (splitSlash ip).2 = some len) [Decidable (Refused len)] :
    entryWrites h ip =
      if Refused len then [] else [⟨ntohl sAddr, (toInt32 (strtol len).value).toNat⟩] := by
  have hsplit : splitSlash ip = ((splitSlash ip).1, some len) := Prod.ext rfl hlen
  rw [entryWrites, hsplit]
  dsimp only
  by_cases hr : Refused len
  · rw [if_pos hr, if_pos]
    rwa [Refused, ← Bool.not_eq_true'] at hr
  · rw [if_neg hr, if_neg, addressWrites, ha]
    rwa [Refused, ← Bool.not_eq_true'] at hr

theorem entryWrites_of_grammatical (ha : h.inetAton (splitSlash ip).1 = some sAddr)
    (hg : Grammatical ip) : entryWrites h ip = [⟨ntohl sAddr, entryLength ip⟩] := by
  classical
  cases hlen : (splitSlash ip).2 with
  | none =>
    have hsplit : splitSlash ip = ((splitSlash ip).1, none) := Prod.ext rfl hlen
    rw [entryWrites, entryLength, hsplit]
    dsimp only
    rw [addressWrites, ha]
  | some len =>
    obtain ⟨n, hn⟩ := Option.ne_none_iff_exists'.mp (hg len hlen)
    obtain ⟨hr, hint⟩ := not_refused hn
    rw [entryWrites_of_slash ha hlen, if_neg hr, hint, entryLength, hlen, Int.toNat_natCast]
    dsimp only
    rw [hn, Option.getD_some]

theorem entryLength_le (ip : CStr) : entryLength ip ≤ 256 := by
  rw [entryLength]
  cases (splitSlash ip).2 with
  | none => exact le_rfl
  | some len =>
    cases hn : prefixLength len with
    | none =>
      dsimp only
      rw [hn]
      exact Nat.zero_le 256
    | some n =>
      have := (prefixLength_eq_some hn).1
      dsimp only
      rw [hn, Option.getD_some]
      omega

/-- The paths of the prefix are those of its addresses. -/
theorem agree_iff_inPrefix (hg : Grammatical ip) (haddr : addr < 2 ^ 32) (ha : a < 2 ^ 32) :
    Agree (entryLength ip) (bits addr) (bits a) ↔ InPrefix ip addr a := by
  rw [entryLength, InPrefix]
  cases hlen : (splitSlash ip).2 with
  | none =>
    dsimp only
    constructor
    · intro hagree
      have h32 := (agree_wordPath le_rfl haddr ha).mp (hagree.mono (by decide : 32 ≤ 256))
      rw [Nat.sub_self, pow_zero, Nat.div_one, Nat.div_one] at h32
      exact h32.symm
    · rintro rfl
      exact fun _ _ => rfl
  | some len =>
    obtain ⟨n, hn⟩ := Option.ne_none_iff_exists'.mp (hg len hlen)
    dsimp only
    rw [hn, Option.getD_some, agree_wordPath (prefixLength_eq_some hn).1 haddr ha]
    constructor
    · exact fun he => ⟨n, rfl, he.symm⟩
    · rintro ⟨m, hm, he⟩
      obtain rfl := Option.some.inj hm
      exact he.symm

theorem lookup_applyWrites_singleton {w : Write} (hw : w.Ok) (a : Nat) :
    xmIptreeLookupIp (applyWrites value t [w]) a =
      if Agree w.len (bits w.pfx) (bits a) ∧ ¬ t.root.toTrie.SplitAt (bits w.pfx) w.len then value
      else xmIptreeLookupIp t a := by
  rw [xmIptreeLookupIp_eq, xmIptreeLookupIp_eq, applyWrites_toTrie (by simpa using hw)]
  exact Trie.lookup_insert value w.len t.root.toTrie (bits w.pfx) (bits a)

theorem initFromString_snd_eq_zero_iff :
    (initFromString h t ip value).2 = 0 ↔ entryWrites h ip ≠ [] := by
  rw [initFromString_eq]
  cases entryWrites h ip with
  | nil => simp
  | cons w ws => simp

/-- An entry is accepted by its grammar exactly when what is none is refused. -/
theorem accepted_iff (t : XmIptree) (value : Nat)
    (ha : h.inetAton (splitSlash ip).1 = some sAddr) :
    ((initFromString h t ip value).2 = 0 ↔ Grammatical ip) ↔
      ∀ len, (splitSlash ip).2 = some len → prefixLength len = none → Refused len := by
  classical
  rw [initFromString_snd_eq_zero_iff]
  constructor
  · intro hacc len hlen hn
    have hnot : ¬ Grammatical ip := fun hg => hg len hlen hn
    have hempty : entryWrites h ip = [] := not_not.mp (mt hacc.mp hnot)
    by_contra hr
    rw [entryWrites_of_slash ha hlen, if_neg hr] at hempty
    exact List.cons_ne_nil _ _ hempty
  · intro hlength
    constructor
    · intro hne len hlen hn
      rw [entryWrites_of_slash ha hlen, if_pos (hlength len hlen hn)] at hne
      exact hne rfl
    · intro hg
      rw [entryWrites_of_grammatical ha hg]
      exact List.cons_ne_nil _ _

/-- A grammatical entry writes its prefix exactly when the tree has no inner node there, or nothing to
change. -/
theorem gains_iff (ha : h.inetAton (splitSlash ip).1 = some sAddr) (hg : Grammatical ip) :
    (∀ a < 2 ^ 32,
        (InPrefix ip (ntohl sAddr) a → xmIptreeLookupIp (initFromString h t ip value).1 a = value) ∧
          (¬ InPrefix ip (ntohl sAddr) a →
            xmIptreeLookupIp (initFromString h t ip value).1 a = xmIptreeLookupIp t a)) ↔
      (t.root.toTrie.SplitAt (bits (ntohl sAddr)) (entryLength ip) →
        ∀ a < 2 ^ 32, InPrefix ip (ntohl sAddr) a → xmIptreeLookupIp t a = value) := by
  have hok : Write.Ok ⟨ntohl sAddr, entryLength ip⟩ := ⟨ntohl_lt _, entryLength_le ip⟩
  have hlookup (a : Nat) : xmIptreeLookupIp (initFromString h t ip value).1 a =
      if Agree (entryLength ip) (bits (ntohl sAddr)) (bits a) ∧
        ¬ t.root.toTrie.SplitAt (bits (ntohl sAddr)) (entryLength ip) then value
      else xmIptreeLookupIp t a := by
    rw [initFromString_eq, entryWrites_of_grammatical ha hg, lookup_applyWrites_singleton hok]
  constructor
  · intro hgain hsplit a hlt hin
    have hnew := (hgain a hlt).1 hin
    rwa [hlookup a, if_neg (fun hc => hc.2 hsplit)] at hnew
  · intro hnode a hlt
    have hagree := agree_iff_inPrefix hg (ntohl_lt sAddr) hlt
    constructor
    · intro hin
      by_cases hsplit : t.root.toTrie.SplitAt (bits (ntohl sAddr)) (entryLength ip)
      · rw [hlookup a, if_neg (fun hc => hc.2 hsplit), hnode hsplit a hlt hin]
      · rw [hlookup a, if_pos ⟨hagree.mpr hin, hsplit⟩]
    · intro hout
      rw [hlookup a, if_neg (fun hc => hout (hagree.mp hc.1))]

theorem initFromString_unchanged (h : Host) (t : XmIptree) (ip : CStr) (value : Nat)
    (hfail : (initFromString h t ip value).2 = -1) : (initFromString h t ip value).1 = t := by
  have hempty : entryWrites h ip = [] := by
    by_contra hne
    rw [initFromString_snd_eq_zero_iff.mpr hne] at hfail
    exact absurd hfail (by decide)
  rw [initFromString_eq, hempty, applyWrites_nil]

/-- An entry for an address is accepted by its grammar and writes its prefix, and nothing else, exactly
when what follows the slash is a prefix length or refused, and the tree has no inner node at the prefix
whose addresses have another value. -/
theorem initFromString_followsGrammar_iff (ha : h.inetAton (splitSlash ip).1 = some sAddr) :
    FollowsGrammar h t ip value (ntohl sAddr) ↔ ReadsStrictly t ip value (ntohl sAddr) := by
  constructor
  · intro hf
    refine ⟨(accepted_iff t value ha).mp hf.accepted, fun hg => ?_⟩
    exact (gains_iff ha hg).mp (hf.gains (hf.accepted.mpr hg))
  · intro hr
    have hacc := (accepted_iff t value ha).mpr hr.length
    exact ⟨hacc, fun h0 => (gains_iff ha (hacc.mp h0)).mpr (hr.node (hacc.mp h0)),
      initFromString_unchanged h t ip value⟩

end

theorem initFromString_followsGrammar_iff_wide :
    quadHost.inetAton (splitSlash "10.0.0.0/8".toList).1 = some 10 ∧
      (FollowsGrammar quadHost (xmIptreeCreate 0) "10.0.0.0/8".toList 1 (ntohl (10 : Fin (2 ^ 32))) ↔
        ReadsStrictly (xmIptreeCreate 0) "10.0.0.0/8".toList 1 (ntohl (10 : Fin (2 ^ 32)))) :=
  ⟨by decide, initFromString_followsGrammar_iff (by decide)⟩

/-- A mistyped separator after the length is passed over. -/
theorem initFromString_trailing_text :
    quadHost.inetAton (splitSlash "10.0.0.0/8.0".toList).1 = some 10 ∧
      ¬ FollowsGrammar quadHost (xmIptreeCreate 0) "10.0.0.0/8.0".toList 1
        (ntohl (10 : Fin (2 ^ 32))) := by
  refine ⟨by decide, fun hf => ?_⟩
  have hg : Grammatical "10.0.0.0/8.0".toList := hf.accepted.mp (by decide)
  exact hg "8.0".toList (by decide) (by decide)

end Xmap.Target
