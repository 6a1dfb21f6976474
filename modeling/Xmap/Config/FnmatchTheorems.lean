import Xmap.Config.Lemmas.Fnmatch
import Xmap.Config.Paths

/-!
# Theorems on wildcards

`xm_fnmatch` goes through the string once for each star and gives no place up twice. It finds a match wherever there
is one.
-/

namespace Xmap.Config

open Xmap.Lib.Glob
open Xmap.Target (CStr)

section
variable {flags : FnmFlags} {c : Char} {pattern string p : CStr} {ts : List (Tok Char)}

/-! ## Segments -/

theorem matchSegment_iff (hpattern : NoSlash flags pattern) (hstring : NoSlash flags string) :
    matchSegment flags pattern string = some ([], []) ↔ Matches (tokens flags pattern) string := by
  fun_induction matchSegment flags pattern string with
  | case1 pattern string hstop =>
    rw [hpattern.atSegmentEnd_iff, hstring.atStringEnd_iff] at hstop
    rcases hstop with rfl | ⟨rfl, hstar⟩
    · rw [tokens_nil, matches_nil]
      simp
    · by_cases hne : pattern = []
      · simp [hne, tokens_nil, matches_nil]
      · simp [tokens_one hne hstar, hne, not_matches_one_nil]
  | case2 pattern string _ hw =>
    simp [((skipWild_spec hstring).2 hw).1]
  | case3 pattern string _ w hw hr =>
    obtain ⟨hiff, -, hp, hs⟩ := (skipWild_spec hstring).1 w hw
    have hno := (matchGroup_spec (hpattern.suffix hp) (hstring.suffix hs)).2 hr
    simpa using fun hm => hno (hiff.mp hm)
  | case4 pattern string _ w hw r hr ih =>
    obtain ⟨hiff, -, hp, hs⟩ := (skipWild_spec hstring).1 w hw
    have hp' := hpattern.suffix hp
    have hs' := hstring.suffix hs
    obtain ⟨hgroup, hp'', hs''⟩ := (matchGroup_spec hp' hs').1 r hr
    exact (ih (hp'.suffix hp'') (hs'.suffix hs'')).trans (hgroup.symm.trans hiff.symm)

theorem eq_cons_of_deref {s : CStr} (h : deref s = c) (hc : c ≠ Char.ofNat 0) : s = c :: s.tail := by
  obtain ⟨d, t, rfl⟩ := List.exists_cons_of_ne_nil (ne_nil_of_deref h hc)
  rw [← h]
  rfl

variable (flags pattern string) in
theorem matchPeriod_spec :
    (∀ r, matchPeriod flags pattern string = some r → (Matches (tokens flags pattern) string ↔
      Matches (tokens flags r.1) r.2) ∧ (flags.period = true → deref string = '.' → BeginsWithPeriod flags pattern) ∧
        r.1 <:+ pattern ∧ r.2 <:+ string) ∧
      (matchPeriod flags pattern string = none →
        flags.period = true ∧ deref string = '.' ∧ ¬ BeginsWithPeriod flags pattern) := by
  have hsame : sameChar flags '.' '.' = true := by simp [sameChar]
  unfold matchPeriod
  split
  · next hdot =>
    have hstring := eq_cons_of_deref hdot.2 (by decide)
    split
    · next hperiod =>
      have hset : firstSet flags pattern = (sameChar flags '.', pattern.tail) := by simp [firstSet, hperiod]
      have htokens : tokens flags pattern = .one (sameChar flags '.') :: tokens flags pattern.tail := by
        rw [tokens_one (ne_nil_of_deref hperiod (by decide)) (by rw [hperiod]; decide), hset]
      refine ⟨fun r h => ?_, fun h => by simp at h⟩
      obtain rfl := Option.some.inj h
      refine ⟨?_, fun _ _ => .inl hperiod, List.tail_suffix _, List.tail_suffix _⟩
      rw [htokens, hstring, matches_one_cons, and_iff_right hsame]
      rfl
    · next hperiod =>
      split
      · next hescape =>
        have hset : firstSet flags pattern = (sameChar flags '.', pattern.tail.tail) := by
          simp [firstSet, hescape, ne_nil_of_deref hescape.2.2 (by decide)]
        have htokens : tokens flags pattern = .one (sameChar flags '.') :: tokens flags pattern.tail.tail := by
          rw [tokens_one (ne_nil_of_deref hescape.2.1 (by decide)) (by rw [hescape.2.1]; decide), hset]
        refine ⟨fun r h => ?_, fun h => by simp at h⟩
        obtain rfl := Option.some.inj h
        refine ⟨?_, fun _ _ => .inr hescape, (List.tail_suffix _).trans (List.tail_suffix _), List.tail_suffix _⟩
        rw [htokens, hstring, matches_one_cons, and_iff_right hsame]
        rfl
      · next hescape =>
        refine ⟨fun r h => by simp at h, fun _ => ⟨hdot.1, hdot.2, ?_⟩⟩
        rintro (h | h)
        · exact hperiod h
        · exact hescape h
  · next hdot =>
    refine ⟨fun r h => ?_, fun h => by simp at h⟩
    obtain rfl := Option.some.inj h
    exact ⟨Iff.rfl, fun hp hs => absurd ⟨hp, hs⟩ hdot, List.suffix_refl _, List.suffix_refl _⟩

theorem matchSegment_suffix (hpattern : NoSlash flags pattern) (hstring : NoSlash flags string) {r : CStr × CStr}
    (h : matchSegment flags pattern string = some r) : r.1 <:+ pattern ∧ r.2 <:+ string := by
  fun_induction matchSegment flags pattern string with
  | case1 =>
    obtain rfl := Option.some.inj h
    exact ⟨List.suffix_refl _, List.suffix_refl _⟩
  | case2 => cases h
  | case3 => cases h
  | case4 pattern string _ w hw r' hr ih =>
    obtain ⟨-, -, hp, hs⟩ := (skipWild_spec hstring).1 w hw
    have hp' := hpattern.suffix hp
    have hs' := hstring.suffix hs
    obtain ⟨-, hp'', hs''⟩ := (matchGroup_spec hp' hs').1 r' hr
    obtain ⟨hp₃, hs₃⟩ := ih (hp'.suffix hp'') (hs'.suffix hs'') h
    exact ⟨hp₃.trans (hp''.trans hp), hs₃.trans (hs''.trans hs)⟩

/-- Without slashes there is one segment, and both strings end with it. -/
theorem firstSegment_iff (hpattern : NoSlash flags pattern) (hstring : NoSlash flags string) :
    (GlobMatches flags pattern string → firstSegment flags pattern string = some ([], [])) ∧
      (¬ GlobMatches flags pattern string → firstSegment flags pattern string = none) := by
  obtain ⟨hsome, hnone⟩ := matchPeriod_spec flags pattern string
  unfold firstSegment
  cases hperiod : matchPeriod flags pattern string with
  | none =>
    obtain ⟨hflag, hdot, hno⟩ := hnone hperiod
    exact ⟨fun h => absurd (h.period hflag hdot) hno, fun _ => rfl⟩
  | some r =>
    obtain ⟨htokens, hbegins, hp, hs⟩ := hsome r hperiod
    have hp' := hpattern.suffix hp
    have hs' := hstring.suffix hs
    have hsegment := (matchSegment_iff hp' hs').trans htokens.symm
    rw [Option.bind_some]
    constructor
    · intro h
      rw [hsegment.mpr h.tokens]
      rfl
    · intro h
      cases hr : matchSegment flags r.1 r.2 with
      | none => rfl
      | some q =>
        obtain ⟨hq, hq'⟩ := matchSegment_suffix hp' hs' hr
        rw [Option.bind_some, if_neg]
        rw [(hs'.suffix hq').atStringEnd_iff, (hp'.suffix hq).atSegmentEnd_iff]
        rintro ⟨hnil', hnil⟩
        have hq : q = ([], []) := Prod.ext hnil hnil'
        exact h ⟨hbegins, hsegment.mp (hq ▸ hr)⟩

theorem skipSlash_eq (hpattern : NoSlash flags pattern) : skipSlash flags pattern string = (pattern, string) := by
  have hskip := (hpattern.suffix (skipEscape_suffix flags pattern)).not_isSlash
  simp [skipSlash, hskip, hpattern.not_isSlash]

end

/-- `xm_fnmatch` finds a match exactly where the wildcards allow one, for strings without slashes and for any where
slashes are like other letters. -/
theorem xmFnmatch_iff {flags : FnmFlags} {pattern string : CStr} (hpattern : flags.pathname = true → '/' ∉ pattern)
    (hstring : flags.pathname = true → '/' ∉ string) :
    xmFnmatch flags pattern string = 0 ↔ GlobMatches flags pattern string := by
  obtain ⟨hmatch, hno⟩ := @firstSegment_iff flags pattern string hpattern hstring
  have hend : matchSegments flags [] [] = true := by rw [matchSegments]; rfl
  have hempty : GlobMatches flags [] [] := ⟨fun _ h => by simp [deref] at h, tokens_nil flags ▸ .nil⟩
  unfold xmFnmatch
  split
  · rw [result_eq_zero]
    by_cases h : GlobMatches flags pattern string
    · simp [hmatch h, hend, h]
    · simp [hno h, h]
  · next hstar =>
    rw [result_eq_zero, matchSegments]
    split
    · next hnil =>
      rcases hnil with rfl | rfl
      · rw [Bool.and_eq_true, List.isEmpty_iff, List.isEmpty_iff, and_iff_right rfl]
        constructor
        · rintro rfl
          exact hempty
        · intro h
          exact matches_nil.mp (tokens_nil flags ▸ h.tokens)
      · rw [Bool.and_eq_true, List.isEmpty_iff, List.isEmpty_iff, and_iff_left rfl]
        constructor
        · rintro rfl
          exact hempty
        · intro h
          by_contra hne
          exact not_matches_one_nil (tokens_one hne hstar ▸ h.tokens)
    · rw [skipSlash_eq hpattern]
      by_cases h : GlobMatches flags pattern string
      · split
        · next hr => simp [hmatch h] at hr
        · next r hr =>
          rw [hmatch h] at hr
          obtain rfl := Option.some.inj hr
          simp [hend, h]
      · split
        · simp [h]
        · next r hr => simp [hno h] at hr

theorem xmFnmatch_iff_conf : xmFnmatch includeFlags ['*', '.', 'c'] ['a', '.', 'c'] = 0 ↔
    GlobMatches includeFlags ['*', '.', 'c'] ['a', '.', 'c'] :=
  xmFnmatch_iff (by decide) (by decide)

end Xmap.Config
