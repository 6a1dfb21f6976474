import Mathlib.Algebra.BigOperators.Group.List.Basic
import Xmap.Context.SourceIp

/-!
# Theorems on source addresses

The addresses that a string is read as are those of its items one after another. An address that does not
parse is read as 255.255.255.255, and a range counts up until it has reached its last address, through 0
where it has to.
-/

namespace Xmap.Context

open Xmap.Probe
open Xmap.Target (CStr)

/-! ## Items -/

/-- The items of the string, between its commas. -/
def items (givenString : CStr) : List CStr := givenString.splitOn ','

section
variable {c : Char} {s head : CStr}

theorem cut_of_not_mem (h : c ∉ s) : cut c s = (s, none) := by
  induction s with
  | nil => rfl
  | cons d s ih =>
    obtain ⟨hd, hs⟩ := not_or.mp (mt List.mem_cons.mpr h)
    rw [cut, if_neg (Ne.symm hd), ih hs]

theorem cut_append (h : c ∉ head) (tail : CStr) : cut c (head ++ c :: tail) = (head, some tail) := by
  induction head with
  | nil => rw [List.nil_append, cut, if_pos rfl]
  | cons d head ih =>
    obtain ⟨hd, hs⟩ := not_or.mp (mt List.mem_cons.mpr h)
    rw [List.cons_append, cut, if_neg (Ne.symm hd), ih hs]

/-- A string has no `c`, or it is cut at its first. -/
theorem cut_cases (c : Char) (s : CStr) : c ∉ s ∨ ∃ head tail, c ∉ head ∧ s = head ++ c :: tail := by
  by_cases h : c ∈ s
  · obtain ⟨head, tail, hs, hhead⟩ := List.eq_append_cons_of_mem h
    exact Or.inr ⟨head, tail, hhead, hs⟩
  · exact Or.inl h

theorem items_of_not_mem (h : ',' ∉ s) : items s = [s] := List.splitOn_eq_singleton h

theorem items_append (h : ',' ∉ head) (tail : CStr) : items (head ++ ',' :: tail) = head :: items tail :=
  List.splitOn_append_cons_self_of_not_mem h tail

theorem items_induction {P : CStr → Prop} (single : ∀ s, ',' ∉ s → P s)
    (cons : ∀ head tail, ',' ∉ head → P tail → P (head ++ ',' :: tail)) (s : CStr) : P s := by
  rcases cut_cases ',' s with h | ⟨head, tail, h, hs⟩
  · exact single s h
  · rw [hs]
    exact cons head tail h (items_induction single cons tail)
termination_by s.length
decreasing_by
  rw [hs, List.length_append, List.length_cons]
  omega

theorem mem_items_iff {d : Char} (hd : d ≠ ',') (s : CStr) : (∃ i ∈ items s, d ∈ i) ↔ d ∈ s := by
  induction s using items_induction with
  | single s h => simp [items_of_not_mem h]
  | cons head tail h ih => simp [items_append h, ih, hd]

end

/-! ## Rounds of the loops -/

/-- `n` addresses of the host's order, counted up. -/
def countUp (start : UInt32) (n : Nat) : List UInt32 :=
  (List.range n).map fun i => htonl (start + UInt32.ofNat i)

theorem countUp_succ (start : UInt32) (n : Nat) :
    countUp start (n + 1) = htonl start :: countUp (start + 1) n := by
  have htail (i : Nat) : start + UInt32.ofNat (i + 1) = start + 1 + UInt32.ofNat i := by
    rw [UInt32.ofNat_add, UInt32.add_assoc, UInt32.add_comm 1]
    rfl
  rw [countUp, countUp, List.range_succ_eq_map, List.map_cons, List.map_map]
  refine congrArg₂ List.cons (congrArg htonl (UInt32.add_zero start)) (List.map_congr_left fun i _ => ?_)
  exact congrArg htonl (htail i)

@[simp] theorem length_countUp (start : UInt32) (n : Nat) : (countUp start n).length = n := by
  simp [countUp]

/-- The addresses that an item is read as. -/
def span (inet : Inet) (item : CStr) : List UInt32 :=
  match cut '-' item with
  | (_, none) => [stringToIpAddress inet item]
  | (first, some last) =>
    let start := ntohl (stringToIpAddress inet first)
    countUp start (ntohl (stringToIpAddress inet last) + 1 - start).toNat

/-- The rounds that the loop over a range makes for an item. -/
def rangeRounds (inet : Inet) (item : CStr) : Nat :=
  if '-' ∈ item then (span inet item).length else 0

/-- The number of items that follow the last one with a dash. -/
def lastSingles : List CStr → Nat
  | [] => 0
  | item :: rest => if ∃ i ∈ item :: rest, '-' ∈ i then lastSingles rest else rest.length + 1

theorem lastSingles_of_dash {item : CStr} {rest : List CStr} (h : ∃ i ∈ item :: rest, '-' ∈ i) :
    lastSingles (item :: rest) = lastSingles rest := by
  rw [lastSingles, if_pos h]

theorem lastSingles_of_no_dash {l : List CStr} (h : ¬ ∃ i ∈ l, '-' ∈ i) : lastSingles l = l.length := by
  cases l with
  | nil => rfl
  | cons item rest => rw [lastSingles, if_neg h, List.length_cons]

/-- From `s` to `s'` the addresses `as` are put in as far as there is room, in `n` rounds. -/
structure Adds (s : SourceIps) (as : List UInt32) (n : Nat) (s' : SourceIps) : Prop where
  sourceIpAddresses : s'.sourceIpAddresses =
    s.sourceIpAddresses ++ as.take (256 - s.sourceIpAddresses.length)
  rounds : s'.rounds = s.rounds + n

namespace Adds
variable {inet : Inet} {s s' s'' : SourceIps} {as bs : List UInt32} {m n : Nat}

theorem refl (s : SourceIps) : Adds s [] 0 s := ⟨by simp, rfl⟩

theorem trans (h : Adds s as m s') (h' : Adds s' bs n s'') : Adds s (as ++ bs) (m + n) s'' where
  sourceIpAddresses := by
    rw [h'.sourceIpAddresses, h.sourceIpAddresses, List.take_append, List.append_assoc,
      List.length_append, List.length_take]
    congr 3
    have := s.length_le
    omega
  rounds := by rw [h'.rounds, h.rounds, add_assoc]

theorem round (s : SourceIps) : Adds s [] 1 s.round := ⟨by simp, rfl⟩

theorem addToArray (inet : Inet) (s : SourceIps) (t : CStr) :
    Adds s [stringToIpAddress inet t] 0 (addToArray inet s t) := by
  rw [Xmap.Context.addToArray]
  by_cases h : 256 ≤ s.sourceIpAddresses.length
  · rw [dif_pos h]
    exact ⟨by simp [Nat.sub_eq_zero_of_le h], rfl⟩
  · rw [dif_neg h]
    refine ⟨?_, rfl⟩
    rw [List.take_of_length_le]
    rw [List.length_singleton]
    omega

theorem commaLoop (inet : Inet) (givenString rest : CStr) (s : SourceIps) :
    Adds s ((givenString :: items rest).map (stringToIpAddress inet)) (items rest).length
      (commaLoop inet givenString rest s) := by
  induction rest using items_induction generalizing givenString s with
  | single rest h =>
    have hstep := ((round s).trans (addToArray inet s.round givenString)).trans
      (addToArray inet (Xmap.Context.addToArray inet s.round givenString) rest)
    rw [Xmap.Context.commaLoop, cut_of_not_mem h, items_of_not_mem h]
    exact hstep
  | cons next rest h ih =>
    have hstep := ((round s).trans (addToArray inet s.round givenString)).trans
      (ih next (Xmap.Context.addToArray inet s.round givenString))
    rw [Xmap.Context.commaLoop, cut_append h, items_append h, List.length_cons, Nat.add_comm]
    exact hstep

theorem rangeLoop (inet : Inet) (start stop : UInt32) (s : SourceIps) :
    Adds s (countUp start (stop - start).toNat) (stop - start).toNat
      (rangeLoop inet start stop s) := by
  induction hn : (stop - start).toNat generalizing start s with
  | zero =>
    have hstop : start = stop := by
      have := start.toNat_lt
      have := stop.toNat_lt
      rw [UInt32.toNat_sub] at hn
      exact UInt32.toNat_inj.mp (by omega)
    rw [Xmap.Context.rangeLoop, if_pos hstop]
    exact refl s
  | succ n ih =>
    have hne : start ≠ stop := by
      rintro rfl
      rw [UInt32.sub_self] at hn
      exact absurd hn (Nat.succ_ne_zero n).symm
    have hsucc : (stop - (start + 1)).toNat = n := by
      have hlt := toNat_sub_succ_lt hne
      have := start.toNat_lt
      have := stop.toNat_lt
      simp only [UInt32.toNat_sub, UInt32.toNat_add, UInt32.toNat_one] at hlt hn ⊢
      omega
    have hadd := addToArray inet s.round (inet.inetNtoa (htonl start))
    rw [stringToIpAddress, Inet.inetAddr, inet.inetAton_inetNtoa, Option.getD_some] at hadd
    have hstep := ((round s).trans hadd).trans
      (ih (start + 1) (Xmap.Context.addToArray inet s.round (inet.inetNtoa (htonl start))) hsucc)
    rw [Xmap.Context.rangeLoop, if_neg hne, countUp_succ, Nat.add_comm n 1]
    exact hstep

theorem parse_single {givenString : CStr} (inet : Inet) (h : ',' ∉ givenString) (s : SourceIps) :
    Adds s (span inet givenString) (rangeRounds inet givenString)
      (xmParseSourceIpAddresses inet givenString s) := by
  rw [xmParseSourceIpAddresses, cut_of_not_mem h]
  rcases cut_cases '-' givenString with hd | ⟨first, last, hd, rfl⟩
  · rw [rangeRounds, if_neg hd, span, cut_of_not_mem hd]
    exact addToArray inet s givenString
  · have hmem : '-' ∈ first ++ '-' :: last := by simp
    rw [rangeRounds, if_pos hmem, span, cut_append hd]
    simp only [length_countUp]
    exact rangeLoop inet _ _ s

theorem span_of_not_mem {item : CStr} (inet : Inet) (h : '-' ∉ item) :
    span inet item = [stringToIpAddress inet item] := by
  rw [span, cut_of_not_mem h]

/-- What a call puts in, and in how many rounds. -/
theorem parse (inet : Inet) (givenString : CStr) (s : SourceIps) :
    Adds s ((items givenString).flatMap (span inet))
      (((items givenString).map (rangeRounds inet)).sum + (lastSingles (items givenString) - 1))
      (xmParseSourceIpAddresses inet givenString s) := by
  induction givenString using items_induction generalizing s with
  | single givenString h =>
    have hlast : lastSingles [givenString] - 1 = 0 := by
      rw [lastSingles]
      by_cases hd : ∃ i ∈ [givenString], '-' ∈ i
      · rw [if_pos hd, lastSingles]
      · rw [if_neg hd, List.length_nil]
    rw [items_of_not_mem h, hlast, List.flatMap_singleton, List.map_singleton, List.sum_singleton]
    exact parse_single inet h s
  | cons head tail h ih =>
    have hitems : items (head ++ ',' :: tail) = head :: items tail := items_append h tail
    by_cases hd : '-' ∈ head ++ ',' :: tail
    · have hsome : ∃ i ∈ head :: items tail, '-' ∈ i := by
        rw [← hitems]
        exact (mem_items_iff (by decide) _).mpr hd
      rcases cut_cases '-' (head ++ ',' :: tail) with hno | ⟨first, last, hfirst, hcut⟩
      · exact absurd hd hno
      · have hboth := (parse_single inet h s).trans (ih (xmParseSourceIpAddresses inet head s))
        rw [hitems, lastSingles_of_dash hsome, List.flatMap_cons, List.map_cons, List.sum_cons, add_assoc,
          xmParseSourceIpAddresses, cut_append h, hcut, cut_append hfirst]
        exact hboth
    · have hnone : ¬ ∃ i ∈ head :: items tail, '-' ∈ i := by
        rw [← hitems]
        exact mt (mem_items_iff (by decide) _).mp hd
      have hsingle : ∀ i ∈ head :: items tail, '-' ∉ i := fun i hi hmem => hnone ⟨i, hi, hmem⟩
      have hspan : (head :: items tail).flatMap (span inet) =
          (head :: items tail).map (stringToIpAddress inet) := by
        rw [← List.flatMap_singleton' ((head :: items tail).map _), List.flatMap_map]
        exact List.flatMap_congr fun i hi => span_of_not_mem inet (hsingle i hi)
      have hrounds : ((head :: items tail).map (rangeRounds inet)).sum = 0 := by
        refine List.sum_eq_zero fun n hn => ?_
        obtain ⟨i, hi, rfl⟩ := List.mem_map.mp hn
        rw [rangeRounds, if_neg (hsingle i hi)]
      rw [hitems, hspan, hrounds, lastSingles_of_no_dash hnone, zero_add, List.length_cons,
        Nat.add_sub_cancel, xmParseSourceIpAddresses, cut_append h, cut_of_not_mem hd]
      exact commaLoop inet head tail s

end Adds

/-! ## Meaning -/

/-- What an item stands for: one address, or those from one to another that is not below it. -/
def expansion (inet : Inet) (item : CStr) : Option (List UInt32) :=
  match cut '-' item with
  | (_, none) => (inet.inetAton item).map fun a => [a]
  | (first, some last) =>
    if '-' ∈ last then none
    else
      match inet.inetAton first, inet.inetAton last with
      | some a, some b =>
        if ntohl a ≤ ntohl b then some (countUp (ntohl a) ((ntohl b).toNat + 1 - (ntohl a).toNat))
        else none
      | _, _ => none

/-- The addresses that an item denotes. -/
def denotes (inet : Inet) (item : CStr) : List UInt32 := (expansion inet item).getD []

/-- The length of an item that is a range. -/
def rangeLength (inet : Inet) (item : CStr) : Nat :=
  if '-' ∈ item then (denotes inet item).length else 0

/-- The call reads the string as it is meant. -/
structure Expands (inet : Inet) (givenString : CStr) (s : SourceIps) : Prop where
  stored : (∀ i ∈ items givenString, expansion inet i ≠ none) →
    s.sourceIpAddresses = ((items givenString).flatMap (denotes inet)).take 256
  denoted : (∃ i ∈ items givenString, expansion inet i = none) →
    ∀ a ∈ s.sourceIpAddresses, ∃ i ∈ items givenString, a ∈ denotes inet i
  rounds : s.rounds ≤ (items givenString).length + ((items givenString).map (rangeLength inet)).sum

/-- The item is the range of all addresses. Its last address is followed by its first. -/
def isFullRange (inet : Inet) (item : CStr) : Bool :=
  match cut '-' item with
  | (_, none) => false
  | (first, some last) =>
    !last.contains '-' && inet.inetAton first == some 0 && inet.inetAton last == some inaddrNone

/-- No item that is malformed, and no range of all addresses, is harmful where it stands. -/
structure SlipsHarmless (inet : Inet) (givenString : CStr) : Prop where
  /-- Where an item is the range of all addresses, those that follow it begin with its own. -/
  full : (∀ i ∈ items givenString, expansion inet i ≠ none) → ∀ pre item post,
    items givenString = pre ++ item :: post → (∀ i ∈ pre, isFullRange inet i = false) →
    isFullRange inet item = true →
      (post.flatMap (span inet)).take (256 - (pre.flatMap (denotes inet)).length) =
        countUp 0 (256 - (pre.flatMap (denotes inet)).length)
  /-- The addresses that a malformed item is read as are denoted by others, as far as there is room. -/
  malformed : ∀ pre item post, items givenString = pre ++ item :: post → expansion inet item = none →
    ∀ a ∈ (span inet item).take (256 - (pre.flatMap (span inet)).length),
      ∃ i ∈ items givenString, a ∈ denotes inet i
  /-- The malformed ranges are not too long. -/
  rounds : (((items givenString).filter fun i => (expansion inet i).isNone).map (rangeRounds inet)).sum +
      (lastSingles (items givenString) - 1) ≤
    (items givenString).length + 2 ^ 32 * (items givenString).countP (isFullRange inet)

section
variable {inet : Inet} {item : CStr} {as : List UInt32}

theorem toNat_sub_of_le {a b : UInt32} (h : a ≤ b) (hfull : ¬ (a = 0 ∧ b = inaddrNone)) :
    (b + 1 - a).toNat = b.toNat + 1 - a.toNat := by
  have hab : a.toNat ≤ b.toNat := UInt32.le_iff_toNat_le.mp h
  have hne : ¬ (a.toNat = 0 ∧ b.toNat = 2 ^ 32 - 1) := fun hc =>
    hfull ⟨UInt32.toNat_inj.mp hc.1, UInt32.toNat_inj.mp hc.2⟩
  have := b.toNat_lt
  simp only [UInt32.toNat_sub, UInt32.toNat_add, UInt32.toNat_one]
  omega

theorem ntohl_inaddrNone : ntohl inaddrNone = inaddrNone := by decide

theorem ntohl_zero : ntohl 0 = 0 := by decide

theorem expansion_range {first last : CStr} (hfirst : '-' ∉ first)
    (h : expansion inet (first ++ '-' :: last) = some as) :
    '-' ∉ last ∧ ∃ a b, inet.inetAton first = some a ∧ inet.inetAton last = some b ∧
      ntohl a ≤ ntohl b ∧ as = countUp (ntohl a) ((ntohl b).toNat + 1 - (ntohl a).toNat) := by
  rw [expansion, cut_append hfirst] at h
  dsimp only at h
  by_cases hlast : '-' ∈ last
  · rw [if_pos hlast] at h
    exact absurd h.symm (Option.some_ne_none as)
  · rw [if_neg hlast] at h
    cases ha : inet.inetAton first with
    | none =>
      rw [ha] at h
      exact absurd h.symm (Option.some_ne_none as)
    | some a =>
      cases hb : inet.inetAton last with
      | none =>
        rw [ha, hb] at h
        exact absurd h.symm (Option.some_ne_none as)
      | some b =>
        rw [ha, hb] at h
        dsimp only at h
        by_cases hab : ntohl a ≤ ntohl b
        · rw [if_pos hab] at h
          exact ⟨hlast, a, b, rfl, rfl, hab, (Option.some.inj h).symm⟩
        · rw [if_neg hab] at h
          exact absurd h.symm (Option.some_ne_none as)

theorem isFullRange_range {first last : CStr} (hfirst : '-' ∉ first) (hlast : '-' ∉ last) {a b : UInt32}
    (ha : inet.inetAton first = some a) (hb : inet.inetAton last = some b) :
    isFullRange inet (first ++ '-' :: last) = true ↔ ntohl a = 0 ∧ ntohl b = inaddrNone := by
  rw [isFullRange, cut_append hfirst]
  dsimp only
  rw [ha, hb]
  have hzero : a = 0 ↔ ntohl a = 0 := by rw [← ntohl_injective.eq_iff, ntohl_zero]
  have hnone : b = inaddrNone ↔ ntohl b = inaddrNone := by
    rw [← ntohl_injective.eq_iff, ntohl_inaddrNone]
  rw [← hzero, ← hnone, Bool.and_eq_true, Bool.and_eq_true, beq_iff_eq, beq_iff_eq, Option.some_inj,
    Option.some_inj, Bool.not_eq_true', List.contains_eq_mem, decide_eq_false_iff_not]
  exact ⟨fun h => ⟨h.1.2, h.2⟩, fun h => ⟨⟨hlast, h.1⟩, h.2⟩⟩

/-- A range is read as it is meant, or as no address where it is that of all of them. -/
theorem span_of_expansion (h : expansion inet item = some as) :
    span inet item = if isFullRange inet item then [] else as := by
  rcases cut_cases '-' item with hd | ⟨first, last, hfirst, rfl⟩
  · rw [expansion, cut_of_not_mem hd] at h
    obtain ⟨a, ha, rfl⟩ := Option.map_eq_some_iff.mp h
    rw [isFullRange, span, cut_of_not_mem hd, stringToIpAddress, Inet.inetAddr, ha]
    rfl
  · obtain ⟨hlast, a, b, ha, hb, hab, rfl⟩ := expansion_range hfirst h
    have hfull := isFullRange_range hfirst hlast ha hb
    rw [span, cut_append hfirst]
    simp only [stringToIpAddress, Inet.inetAddr, ha, hb, Option.getD_some]
    by_cases hf : ntohl a = 0 ∧ ntohl b = inaddrNone
    · have hwrap : (inaddrNone + 1 - 0).toNat = 0 := by decide
      rw [if_pos (hfull.mpr hf), hf.1, hf.2, hwrap, countUp, List.range_zero, List.map_nil]
    · rw [if_neg (mt hfull.mp hf), toNat_sub_of_le hab hf]

theorem expansion_of_isFullRange (h : isFullRange inet item = true) :
    expansion inet item = some (countUp 0 (2 ^ 32)) := by
  rcases cut_cases '-' item with hd | ⟨first, last, hfirst, rfl⟩
  · rw [isFullRange, cut_of_not_mem hd] at h
    exact absurd h Bool.false_ne_true
  · rw [isFullRange, cut_append hfirst] at h
    simp only [Bool.and_eq_true, Bool.not_eq_true', List.contains_eq_mem, decide_eq_false_iff_not,
      beq_iff_eq] at h
    obtain ⟨⟨hlast, ha⟩, hb⟩ := h
    rw [expansion, cut_append hfirst]
    dsimp only
    rw [if_neg hlast, ha, hb]
    dsimp only
    have hlength : inaddrNone.toNat + 1 - (0 : UInt32).toNat = 2 ^ 32 := by decide
    rw [ntohl_zero, ntohl_inaddrNone, if_pos (by decide), hlength]

theorem mem_of_isFullRange (h : isFullRange inet item = true) : '-' ∈ item := by
  by_contra hd
  rw [isFullRange, cut_of_not_mem hd] at h
  exact absurd h Bool.false_ne_true

theorem isFullRange_of_expansion_none (h : expansion inet item = none) :
    isFullRange inet item = false := by
  cases hf : isFullRange inet item with
  | false => rfl
  | true => exact absurd (expansion_of_isFullRange hf ▸ h) (Option.some_ne_none _)

theorem span_of_wellFormed (h : expansion inet item ≠ none) :
    span inet item = if isFullRange inet item then [] else denotes inet item := by
  obtain ⟨as, has⟩ := Option.ne_none_iff_exists'.mp h
  rw [span_of_expansion has, denotes, has, Option.getD_some]

theorem denotes_of_isFullRange (h : isFullRange inet item = true) :
    denotes inet item = countUp 0 (2 ^ 32) := by
  rw [denotes, expansion_of_isFullRange h, Option.getD_some]

theorem mem_denotes_of_mem_span {a : UInt32} (h : expansion inet item ≠ none) (ha : a ∈ span inet item) :
    a ∈ denotes inet item := by
  rw [span_of_wellFormed h] at ha
  cases hf : isFullRange inet item with
  | true =>
    rw [if_pos hf] at ha
    exact absurd ha List.not_mem_nil
  | false =>
    rw [if_neg (Bool.eq_false_iff.mp hf)] at ha
    exact ha

/-! ## Rounds -/

/-- A range goes round once for each of its addresses, unless it is malformed or that of all of them. -/
theorem rangeRounds_add (inet : Inet) (item : CStr) :
    rangeRounds inet item + 2 ^ 32 * (if isFullRange inet item then 1 else 0) =
      (if (expansion inet item).isNone then rangeRounds inet item else 0) + rangeLength inet item := by
  cases hx : expansion inet item with
  | none =>
    rw [isFullRange_of_expansion_none hx, rangeLength, denotes, hx]
    simp
  | some as =>
    have hwf : expansion inet item ≠ none := hx ▸ Option.some_ne_none as
    cases hf : isFullRange inet item with
    | true =>
      rw [rangeRounds, rangeLength, if_pos (mem_of_isFullRange hf), if_pos (mem_of_isFullRange hf),
        span_of_wellFormed hwf, if_pos hf, denotes_of_isFullRange hf, length_countUp]
      rfl
    | false =>
      rw [rangeRounds, rangeLength, span_of_wellFormed hwf, hf]
      simp

theorem sum_rangeRounds_add (inet : Inet) (l : List CStr) :
    (l.map (rangeRounds inet)).sum + 2 ^ 32 * l.countP (isFullRange inet) =
      ((l.filter fun i => (expansion inet i).isNone).map (rangeRounds inet)).sum +
        (l.map (rangeLength inet)).sum := by
  induction l with
  | nil => rfl
  | cons i l ih =>
    have hi := rangeRounds_add inet i
    rw [List.map_cons, List.map_cons, List.sum_cons, List.sum_cons, List.countP_cons, List.filter_cons]
    cases hx : (expansion inet i).isNone with
    | true =>
      rw [hx, if_pos rfl] at hi
      rw [if_pos rfl, List.map_cons, List.sum_cons]
      omega
    | false =>
      rw [hx, if_neg Bool.false_ne_true] at hi
      rw [if_neg Bool.false_ne_true]
      omega

/-! ## Places -/

theorem take_countUp {m n : Nat} (h : m ≤ n) (start : UInt32) :
    (countUp start n).take m = countUp start m := by
  rw [countUp, ← List.map_take, List.take_range, Nat.min_eq_left h, countUp]

theorem mem_take_flatMap {α β : Type} {f : α → List β} {b : β} (l : List α) (n : Nat) :
    b ∈ (l.flatMap f).take n ↔
      ∃ pre x post, l = pre ++ x :: post ∧ b ∈ (f x).take (n - (pre.flatMap f).length) := by
  induction l generalizing n with
  | nil => simp
  | cons y l ih =>
    rw [List.flatMap_cons, List.take_append, List.mem_append, ih]
    constructor
    · rintro (h | ⟨pre, x, post, rfl, h⟩)
      · exact ⟨[], y, l, rfl, h⟩
      · refine ⟨y :: pre, x, post, rfl, ?_⟩
        rw [List.flatMap_cons, List.length_append, ← Nat.sub_sub]
        exact h
    · rintro ⟨pre, x, post, hl, h⟩
      cases pre with
      | nil =>
        obtain ⟨rfl, rfl⟩ := List.cons.inj hl
        exact Or.inl h
      | cons z pre =>
        obtain ⟨rfl, rfl⟩ := List.cons.inj hl
        rw [List.flatMap_cons, List.length_append, ← Nat.sub_sub] at h
        exact Or.inr ⟨pre, x, post, rfl, h⟩

/-- No item is the range of all addresses, or there is a first one. -/
theorem full_cases (inet : Inet) (l : List CStr) :
    (∀ i ∈ l, isFullRange inet i = false) ∨ ∃ pre item post, l = pre ++ item :: post ∧
      (∀ i ∈ pre, isFullRange inet i = false) ∧ isFullRange inet item = true := by
  cases h : l.find? (isFullRange inet) with
  | none => exact Or.inl fun i hi => Bool.eq_false_iff.mpr (List.find?_eq_none.mp h i hi)
  | some item =>
    obtain ⟨hf, pre, post, hl, hpre⟩ := List.find?_eq_some_iff_append.mp h
    exact Or.inr ⟨pre, item, post, hl, fun i hi => (Bool.not_eq_true' _).mp (hpre i hi), hf⟩

theorem flatMap_span_of_no_full {l : List CStr} (hwf : ∀ i ∈ l, expansion inet i ≠ none)
    (hf : ∀ i ∈ l, isFullRange inet i = false) : l.flatMap (span inet) = l.flatMap (denotes inet) :=
  List.flatMap_congr fun i hi => by
    rw [span_of_wellFormed (hwf i hi), hf i hi, if_neg Bool.false_ne_true]

/-- The first range of all addresses goes unnoticed where the items after it take its place. -/
theorem take_flatMap_span_iff {pre post : List CStr}
    (hwf : ∀ i ∈ pre ++ item :: post, expansion inet i ≠ none)
    (hpre : ∀ i ∈ pre, isFullRange inet i = false) (hf : isFullRange inet item = true) :
    ((pre ++ item :: post).flatMap (span inet)).take 256 =
        ((pre ++ item :: post).flatMap (denotes inet)).take 256 ↔
      (post.flatMap (span inet)).take (256 - (pre.flatMap (denotes inet)).length) =
        countUp 0 (256 - (pre.flatMap (denotes inet)).length) := by
  have hspan := flatMap_span_of_no_full (fun i hi => hwf i (List.mem_append_left _ hi)) hpre
  have hitem : span inet item = [] := by
    rw [span_of_wellFormed (hwf item (by simp)), if_pos hf]
  have hall : ∀ m, m ≤ 256 → (countUp 0 (2 ^ 32) ++ post.flatMap (denotes inet)).take m = countUp 0 m := by
    intro m hm
    have hle : m ≤ 2 ^ 32 := hm.trans (by norm_num)
    rw [List.take_append_of_le_length (by rw [length_countUp]; exact hle), take_countUp hle]
  rw [List.flatMap_append, List.flatMap_append, List.flatMap_cons, List.flatMap_cons, hspan, hitem,
    List.nil_append, denotes_of_isFullRange hf, List.take_append, List.take_append,
    List.append_cancel_left_eq, hall _ (Nat.sub_le _ _)]

end

/-! ## Results -/

/-- The addresses, in how they are read and in the rounds it takes, are those that the string denotes
exactly when its malformed items and its ranges of all addresses are harmless where they stand. -/
theorem xmParseSourceIpAddresses_expands_iff (inet : Inet) (givenString : CStr) :
    Expands inet givenString (xmParseSourceIpAddresses inet givenString .empty) ↔
      SlipsHarmless inet givenString := by
  have hadds := Adds.parse inet givenString .empty
  have hips : (xmParseSourceIpAddresses inet givenString .empty).sourceIpAddresses =
      ((items givenString).flatMap (span inet)).take 256 := hadds.sourceIpAddresses
  have hrounds := hadds.rounds
  have hsum := sum_rangeRounds_add inet (items givenString)
  rw [show SourceIps.empty.rounds = 0 from rfl, zero_add] at hrounds
  constructor
  · intro h
    refine ⟨fun hwf pre item post hitems hpre hf => ?_, fun pre item post hitems hx a ha => ?_, ?_⟩
    · have hstored := h.stored hwf
      rw [hips, hitems] at hstored
      exact (take_flatMap_span_iff (hitems ▸ hwf) hpre hf).mp hstored
    · have hmem : a ∈ ((items givenString).flatMap (span inet)).take 256 :=
        (mem_take_flatMap _ 256).mpr ⟨pre, item, post, hitems, ha⟩
      refine h.denoted ⟨item, ?_, hx⟩ a (hips ▸ hmem)
      rw [hitems]
      exact List.mem_append_right _ List.mem_cons_self
    · have hr := h.rounds
      omega
  · intro h
    refine ⟨fun hwf => ?_, fun _ a ha => ?_, ?_⟩
    · rw [hips]
      rcases full_cases inet (items givenString) with hno | ⟨pre, item, post, hitems, hpre, hf⟩
      · rw [flatMap_span_of_no_full hwf hno]
      · have hfull := h.full hwf pre item post hitems hpre hf
        rw [hitems]
        exact (take_flatMap_span_iff (hitems ▸ hwf) hpre hf).mpr hfull
    · rw [hips] at ha
      obtain ⟨pre, item, post, hitems, ha⟩ := (mem_take_flatMap _ 256).mp ha
      by_cases hx : expansion inet item = none
      · exact h.malformed pre item post hitems hx a ha
      · refine ⟨item, ?_, mem_denotes_of_mem_span hx (List.mem_of_mem_take ha)⟩
        rw [hitems]
        exact List.mem_append_right _ List.mem_cons_self
    · have hr := h.rounds
      omega

/-- A byte in decimal. -/
def byteOf (s : CStr) : Option Nat :=
  if s = [] ∨ s.all Char.isDigit = false ∨ 255 < Nat.ofDigitChars 10 s 0 then none
  else some (Nat.ofDigitChars 10 s 0)

theorem byteOf_toDigits {n : Nat} (h : n < 256) : byteOf (Nat.toDigits 10 n) = some n := by
  have hv : Nat.ofDigitChars 10 (Nat.toDigits 10 n) 0 = n := Nat.ofDigitChars_toDigits (by decide) (by decide)
  have hd : (Nat.toDigits 10 n).all Char.isDigit = true :=
    List.all_eq_true.mpr fun c hc => Nat.isDigit_of_mem_toDigits (by decide) (by decide) hc
  rw [byteOf, hv, hd, if_neg]
  rintro (hnil | hfalse | hlt)
  · exact Nat.toDigits_ne_nil hnil
  · exact Bool.false_ne_true hfalse.symm
  · omega

/-- The decimal bytes of an address in network order. -/
def quad (a : UInt32) : List CStr :=
  [a.toNat % 2 ^ 8, a.toNat / 2 ^ 8 % 2 ^ 8, a.toNat / 2 ^ 16 % 2 ^ 8, a.toNat / 2 ^ 24].map (Nat.toDigits 10)

/-- A C library that knows dotted quads. -/
def quadInet : Inet where
  inetAton s :=
    match (s.splitOn '.').mapM byteOf with
    | some [a, b, c, d] => some (UInt32.ofNat (a + b * 2 ^ 8 + c * 2 ^ 16 + d * 2 ^ 24))
    | _ => none
  inetNtoa a := ['.'].intercalate (quad a)
  inetAton_inetNtoa a := by
    have hlt := a.toNat_lt
    have hdot : ∀ t ∈ quad a, '.' ∉ t := by
      intro t ht hmem
      obtain ⟨n, _, rfl⟩ := List.mem_map.mp ht
      exact absurd (Nat.isDigit_of_mem_toDigits (by decide) (by decide) hmem) (by decide)
    have hsum : a.toNat % 2 ^ 8 + a.toNat / 2 ^ 8 % 2 ^ 8 * 2 ^ 8 + a.toNat / 2 ^ 16 % 2 ^ 8 * 2 ^ 16 +
        a.toNat / 2 ^ 24 * 2 ^ 24 = a.toNat := by omega
    rw [List.splitOn_intercalate '.' hdot (List.cons_ne_nil _ _), quad]
    simp only [List.map_cons, List.map_nil, List.mapM_cons, List.mapM_nil]
    rw [byteOf_toDigits (by omega), byteOf_toDigits (by omega), byteOf_toDigits (by omega),
      byteOf_toDigits (by omega)]
    dsimp only [Option.bind_eq_bind, Option.bind_some, Option.pure_def]
    rw [hsum, UInt32.ofNat_toNat]

/-- A name in the place of an address is stored as 255.255.255.255. -/
theorem xmParseSourceIpAddresses_name_stored :
    ¬ Expands quadInet "eth0".toList (xmParseSourceIpAddresses quadInet "eth0".toList .empty) := by
  have hitems : items "eth0".toList = ["eth0".toList] := by decide
  have hnone : expansion quadInet "eth0".toList = none := by decide
  intro h
  have hstored : inaddrNone ∈ (xmParseSourceIpAddresses quadInet "eth0".toList .empty).sourceIpAddresses := by
    rw [(Adds.parse quadInet "eth0".toList .empty).sourceIpAddresses, hitems]
    decide
  obtain ⟨i, hi, hmem⟩ := h.denoted ⟨"eth0".toList, hitems ▸ List.mem_singleton_self _, hnone⟩ _ hstored
  rw [hitems, List.mem_singleton] at hi
  rw [hi, denotes, hnone] at hmem
  exact List.not_mem_nil hmem

end Xmap.Context
