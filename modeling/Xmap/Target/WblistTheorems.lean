import Xmap.Target.Lemmas.Counts

/-!
# Theorems on address trees and lists

What a count says about membership, what the entries of a list mean together, and when a list that
was not read in full is refused. Each is stated with the exact condition under which it holds.
-/

namespace Xmap.Target

open Xmap.Lib

/-! ## Counts -/

/-- The counts of a tree, painted or not, are right for every value exactly when no entry splits an
address. -/
theorem xmIptreeCountIps_eq_card_iff (h : Host) (v₀ : Nat) (calls : List InitCall) :
    CountsAgree (runCalls h (xmIptreeCreate v₀) calls) ↔
      NoDeepSplit (xmIptreeCreate v₀) (callWrites h calls) := by
  rw [counts_iff_shallow (runCalls_painted rfl), shallow_runCalls]

/-- A decimal byte without sign. -/
def decimalByte (s : CStr) : Option Nat :=
  if s.isEmpty ∨ !s.all Char.isDigit ∨ 255 < (strtol s).value then none
  else some (strtol s).value.toNat

/-- A host that knows dotted quads, resolves no name and has no file. -/
def quadHost : Host where
  inetAton s :=
    match (s.splitOn '.').mapM decimalByte with
    | some [a, b, c, d] => some (Fin.ofNat _ (a + b * 2 ^ 8 + c * 2 ^ 16 + d * 2 ^ 24))
    | _ => none
  getaddrinfo _ := none
  fopen _ := none
  inetAton_any := by decide

/-- One host entry is a member that the count leaves out. -/
theorem xmIptreeCountIps_host_entry :
    ¬ CountsAgree (runCalls quadHost (xmIptreeCreate 0) [⟨"1.2.3.4".toList, 1⟩]) := by
  have hw : callWrites quadHost [⟨"1.2.3.4".toList, 1⟩] = [(⟨0x01020304, 256⟩, 1)] := by decide
  rw [counts_iff_shallow (runCalls_painted rfl), shallow_runCalls, hw, NoDeepSplit]
  exact fun hc => absurd (hc.1 (by decide)) (by decide)

/-! ## Meaning -/

structure Cidr where
  pfx : Nat
  len : Nat
  pfx_lt : pfx < 2 ^ 32
  len_le : len ≤ 32

namespace Cidr

def Contains (c : Cidr) (a : Nat) : Prop := a / 2 ^ (32 - c.len) = c.pfx / 2 ^ (32 - c.len)

instance (c : Cidr) (a : Nat) : Decidable (c.Contains a) := inferInstanceAs (Decidable (_ = _))

def write (c : Cidr) : Write := ⟨c.pfx, c.len⟩

theorem contains_iff {c : Cidr} {a : Nat} (ha : a < 2 ^ 32) :
    c.Contains a ↔ c.write.block.Covers (bits a) :=
  ⟨fun h => (agree_wordPath c.len_le c.pfx_lt ha).mpr h.symm,
    fun h => ((agree_wordPath c.len_le c.pfx_lt ha).mp h).symm⟩

end Cidr

/-- The entry is the text of the prefix. -/
structure Spells (h : Host) (ip : CStr) (c : Cidr) : Prop where
  spelled : ∃ host len, splitSlash ip = (host, some len) ∧
    (h.inetAton host).map (ntohl ∘ Fin.val) = some c.pfx ∧
    strtol len = { value := c.len, converted := true, erange := false }

theorem Spells.entryWrites {h : Host} {ip : CStr} {c : Cidr} (hc : Spells h ip c) :
    entryWrites h ip = [c.write] := by
  obtain ⟨host, len, hs, ha, hl⟩ := hc.spelled
  obtain ⟨sAddr, ha, hp⟩ := Option.map_eq_some_iff.mp ha
  have hlen := c.len_le
  have hint : toInt32 (c.len : Int) = c.len := by unfold toInt32; omega
  rw [Xmap.Target.entryWrites, hs]
  simp only [hl, hint]
  rw [if_neg (by simp; omega), addressWrites, ha, Cidr.write, ← hp]
  rfl

theorem writes_of_spells {h : Host} {ips : List CStr} {cs : List Cidr}
    (hs : List.Forall₂ (Spells h) ips cs) : writes h ips = cs.map Cidr.write := by
  induction hs with
  | nil => rfl
  | cons hc _ ih => rw [writes, List.flatMap_cons, hc.entryWrites, ← writes, ih]; rfl

theorem contains_of_effective {cs : List Cidr} {base : List Block} {a : Nat} (ha : a < 2 ^ 32)
    (h : ∃ e ∈ effective base [] ((cs.map Cidr.write).map Write.block), e.Covers (bits a)) :
    ∃ c ∈ cs, c.Contains a := by
  obtain ⟨e, he, hc⟩ := h
  rcases mem_effective he with he | he
  · simp at he
  · rw [List.map_map] at he
    obtain ⟨c, hmem, rfl⟩ := List.mem_map.mp he
    exact ⟨c, hmem, (Cidr.contains_iff ha).mpr hc⟩

section
variable {h : Host} {args : WblistArgs} {W B : List Cidr}

/-- What the entries are to mean together. -/
def ListMeaning (h : Host) (args : WblistArgs) (W B : List Cidr) : Prop :=
  ∀ a < 2 ^ 32, xmWblistIsAllowed (builtList h args) (ntohl a) = true ↔
    (W = [] ∨ ∃ w ∈ W, w.Contains a) ∧ (¬ ∃ d ∈ B, d.Contains a) ∧ a ≠ 0

/-- Entries that take no effect are not missed: an address that only the whitelist contains lies in
an entry of it that takes effect, and so does an address of both lists for the blacklist. -/
def NoneMissed (h : Host) (args : WblistArgs) (W B : List Cidr) : Prop :=
  ∀ a < 2 ^ 32, a ≠ 0 →
    ((W = [] ∨ ∃ w ∈ W, w.Contains a) → (¬ ∃ d ∈ B, d.Contains a) →
      ∃ w ∈ effectiveWhitelist h args, w.Covers (bits a)) ∧
    ((∃ w ∈ effectiveWhitelist h args, w.Covers (bits a)) → (∃ d ∈ B, d.Contains a) →
      ∃ d ∈ effectiveBlacklist h args, d.Covers (bits a))

theorem sourceEntries_eq_nil (hw : ¬ args.hasWhitelist = true) :
    sourceEntries h args.whitelistFilename args.whitelistEntries = [] := by
  simp only [WblistArgs.hasWhitelist, Bool.or_eq_true, decide_eq_true_eq, not_or,
    Bool.not_eq_true, Option.isSome_eq_false_iff, Option.isNone_iff_eq_none] at hw
  obtain ⟨hf, hn⟩ := hw
  rw [sourceEntries, hf]
  cases ha : args.whitelistEntries with
  | none => rfl
  | some a =>
    rw [ha] at hn
    simpa using hn

/-- The entries of two lists, in any order and overlapping in any way, have their meaning exactly
when no entry without effect is missed. -/
theorem xmWblistIsAllowed_meaning_iff
    (hW : List.Forall₂ (Spells h) (sourceEntries h args.whitelistFilename args.whitelistEntries) W)
    (hB : List.Forall₂ (Spells h) (sourceEntries h args.blacklistFilename args.blacklistEntries) B) :
    ListMeaning h args W B ↔ NoneMissed h args W B := by
  have hew : ∀ a < 2 ^ 32, (∃ w ∈ effectiveWhitelist h args, w.Covers (bits a)) →
      W = [] ∨ ∃ w ∈ W, w.Contains a := by
    intro a ha hex
    unfold effectiveWhitelist at hex
    rw [whitelistWrites, writes_of_spells hW] at hex
    split at hex
    · exact Or.inr (contains_of_effective ha hex)
    · rw [sourceEntries_eq_nil ‹_›] at hW
      exact Or.inl (List.forall₂_nil_left_iff.mp hW)
  have heb : ∀ a < 2 ^ 32, (∃ d ∈ effectiveBlacklist h args, d.Covers (bits a)) →
      ∃ d ∈ B, d.Contains a := by
    intro a ha hex
    rw [effectiveBlacklist, blacklistWrites, writes_of_spells hB] at hex
    exact contains_of_effective ha hex
  refine forall₂_congr fun a ha => ?_
  rw [builtList_isAllowed ha, Admits]
  constructor
  · intro hm h0
    refine ⟨fun hw hb => (hm.mpr ⟨hw, hb, h0⟩).2.1, fun hw hb => ?_⟩
    by_contra hd
    exact (hm.mp ⟨h0, hw, hd⟩).2.1 hb
  · intro hn
    constructor
    · rintro ⟨h0, hw, hd⟩
      exact ⟨hew a ha hw, fun hb => hd ((hn h0).2 hw hb), h0⟩
    · rintro ⟨hw, hb, h0⟩
      exact ⟨h0, (hn h0).1 hw hb, fun hd => hb (heb a ha hd)⟩

end

/-- Two arrays on the command line. -/
def arrayArgs (w b : CidrArray) : WblistArgs :=
  { whitelistFilename := none, blacklistFilename := none, whitelistEntries := some w,
    blacklistEntries := some b, ignoreInvalidHosts := false }

def wideCidr : Cidr := ⟨0x0a000000, 8, by decide, by decide⟩
def narrowCidr : Cidr := ⟨0x0a010000, 16, by decide, by decide⟩
def wideEntry : CidrArray := ⟨["10.0.0.0/8".toList], by decide⟩
def narrowEntry : CidrArray := ⟨["10.1.0.0/16".toList], by decide⟩

theorem wideEntry_spells : List.Forall₂ (Spells quadHost) wideEntry.cidrs [wideCidr] :=
  .cons ⟨"10.0.0.0".toList, "8".toList, by decide, by decide, by decide⟩ .nil

theorem narrowEntry_spells : List.Forall₂ (Spells quadHost) narrowEntry.cidrs [narrowCidr] :=
  .cons ⟨"10.1.0.0".toList, "16".toList, by decide, by decide, by decide⟩ .nil

theorem xmWblistIsAllowed_meaning_iff_nested :
    ListMeaning quadHost (arrayArgs wideEntry narrowEntry) [wideCidr] [narrowCidr] ↔
      NoneMissed quadHost (arrayArgs wideEntry narrowEntry) [wideCidr] [narrowCidr] :=
  xmWblistIsAllowed_meaning_iff wideEntry_spells narrowEntry_spells

/-- A blacklist entry around a whitelist entry excludes nothing. -/
theorem xmWblistIsAllowed_wide_blacklist :
    List.Forall₂ (Spells quadHost) narrowEntry.cidrs [narrowCidr] ∧
      List.Forall₂ (Spells quadHost) wideEntry.cidrs [wideCidr] ∧
      ¬ ListMeaning quadHost (arrayArgs narrowEntry wideEntry) [narrowCidr] [wideCidr] := by
  refine ⟨narrowEntry_spells, wideEntry_spells, fun hm => ?_⟩
  have hadmits : Admits quadHost (arrayArgs narrowEntry wideEntry) 0x0a010001 := by decide
  have hmeant := (hm 0x0a010001 (by decide)).mp ((builtList_isAllowed (by decide)).mpr hadmits)
  exact hmeant.2.1 ⟨wideCidr, List.mem_singleton_self _, by decide⟩

/-! ## Failing closed -/

/-- The blacklist's file, if there is one, can be opened. -/
def BlacklistOpens (h : Host) (args : WblistArgs) : Prop :=
  ∀ f, args.blacklistFilename = some f → (h.fopen f).isSome

/-- The blacklist was read in full: its file was opened and no entry failed. -/
def BlacklistRead (h : Host) (args : WblistArgs) : Prop :=
  BlacklistOpens h args ∧
    ∀ ip ∈ sourceEntries h args.blacklistFilename args.blacklistEntries, ∀ t,
      (initFromString h t ip addrDisallowed).2 = 0

/-- A list is built only from a blacklist read in full. -/
def FailsClosed (h : Host) (args : WblistArgs) : Prop :=
  ∀ wblist, xmWblistCreate h args = some wblist → BlacklistRead h args

section
variable (h : Host) (args : WblistArgs)

theorem blacklistRead_iff :
    BlacklistRead h args ↔ BlacklistOpens h args ∧
      ∀ ip ∈ sourceEntries h args.blacklistFilename args.blacklistEntries,
        entryWrites h ip ≠ [] := by
  refine and_congr_right fun _ => forall₂_congr fun ip _ => ?_
  simp only [initFromString_eq]
  constructor
  · intro hz he
    have := hz (xmIptreeCreate 0)
    simp [he] at this
  · intro hne t
    rw [if_neg (by simpa using hne)]

/-- A list fails closed exactly when every source of the blacklist can be read, or the lists leave no
address to scan. -/
theorem xmWblistCreate_fails_closed_iff :
    FailsClosed h args ↔
      (BlacklistOpens h args ∧
        ∀ ip ∈ sourceEntries h args.blacklistFilename args.blacklistEntries,
          entryWrites h ip ≠ []) ∨
      ∀ a < 2 ^ 32, ¬ Eligible h args a := by
  rw [← blacklistRead_iff, ← xmWblistCreate_eq_none, FailsClosed]
  constructor
  · intro hs
    cases hc : xmWblistCreate h args with
    | none => exact Or.inr rfl
    | some wblist => exact Or.inl (hs wblist hc)
  · rintro (hr | hnone) wblist hs
    · exact hr
    · rw [hnone] at hs
      cases hs

end

abbrev missingArgs : WblistArgs :=
  { whitelistFilename := none, blacklistFilename := some "blacklist".toList,
    whitelistEntries := none, blacklistEntries := none, ignoreInvalidHosts := false }

/-- A blacklist file that does not exist is passed over. -/
theorem xmWblistCreate_missing_blacklist : ¬ FailsClosed quadHost missingArgs := by
  intro hf
  cases hc : xmWblistCreate quadHost missingArgs with
  | none => exact xmWblistCreate_eq_none.mp hc 1 (by decide) (by decide)
  | some wblist => exact absurd ((hf wblist hc).1 _ rfl) (by decide)

end Xmap.Target
