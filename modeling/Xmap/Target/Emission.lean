import Xmap.Target.Lemmas.Quota
import Xmap.Target.Lemmas.Senders
import Xmap.Target.WalkTheorems

/-!
# The emission of a shard, address by address

The addresses that a shard returns one after the other, and the shard behind each. The walk of a shard does
not read its counters, and it writes only two of them.
-/

namespace Xmap.Target

open Xmap.Lib

/-- The next call returns an address, with enough fuel. -/
def ReturnsNext (s : XmShard) (r : XmShard × Nat) : Prop :=
  (∃ fuel, xmShardGetNextIp fuel s = some r) ∧ r.2 ≠ xmShardDone

open Classical in
/-- What the next call returns, unless it is `XM_SHARD_DONE` or the walk goes on for ever. -/
noncomputable def nextAddr (s : XmShard) : Option (XmShard × Nat) :=
  if h : ∃ r, ReturnsNext s r then some h.choose else none

/-- The shard at a place of its emission, and the address there. -/
noncomputable def emission (s : XmShard) : Nat → Option (XmShard × Nat)
  | 0 => some (xmShardGetCurIp s)
  | n + 1 => (emission s n).bind fun r => nextAddr r.1

noncomputable def emittedAddr (s : XmShard) (n : Nat) : Option Nat := (emission s n).map Prod.snd

/-- The shard with other counters. -/
def XmShard.withState (s : XmShard) (st : ShardState) : XmShard := { s with state := st }

theorem XmShard.withState_self (s : XmShard) : s.withState s.state = s := rfl

/-- The counters differ in what the walk counts at most. -/
structure ShardState.SameSent (st st' : ShardState) : Prop where
  maxTargets : st'.maxTargets = st.maxTargets
  sent : st'.sent = st.sent
  triedSent : st'.triedSent = st.triedSent

section
variable {fuel fuel' : Nat} {s : XmShard} {r r' : XmShard × Nat} {st : ShardState}

/-! ## One call -/

theorem ShardState.SameSent.refl (st : ShardState) : st.SameSent st := ⟨rfl, rfl, rfl⟩

theorem ShardState.SameSent.trans {st st' st'' : ShardState} (h : st.SameSent st') (h' : st'.SameSent st'') :
    st.SameSent st'' :=
  ⟨h'.maxTargets.trans h.maxTargets, h'.sent.trans h.sent, h'.triedSent.trans h.triedSent⟩

theorem xmShardGetNextIp_mono (h : xmShardGetNextIp fuel s = some r) (hle : fuel ≤ fuel') :
    xmShardGetNextIp fuel' s = some r := by
  unfold xmShardGetNextIp at h ⊢
  split_ifs at h ⊢
  · exact h
  · exact getNextIpLoop_mono h hle

theorem xmShardGetNextIp_unique (h : xmShardGetNextIp fuel s = some r)
    (h' : xmShardGetNextIp fuel' s = some r') : r = r' := by
  have hmax := xmShardGetNextIp_mono h (le_max_left fuel fuel')
  rw [xmShardGetNextIp_mono h' (le_max_right fuel fuel')] at hmax
  exact (Option.some.inj hmax).symm

theorem ReturnsNext.unique (h : ReturnsNext s r) (h' : ReturnsNext s r') : r = r' := by
  obtain ⟨⟨fuel, hr⟩, -⟩ := h
  obtain ⟨⟨fuel', hr'⟩, -⟩ := h'
  exact xmShardGetNextIp_unique hr hr'

theorem nextAddr_eq_some : nextAddr s = some r ↔ ReturnsNext s r := by
  rw [nextAddr]
  split
  · next h =>
    rw [Option.some_inj]
    exact ⟨fun heq => heq ▸ h.choose_spec, fun hr => h.choose_spec.unique hr⟩
  · next h => exact iff_of_false (Option.some_ne_none r).symm fun hr => h ⟨r, hr⟩

theorem shardGetNextElem_withState (fuel : Nat) (s : XmShard) (st : ShardState) :
    shardGetNextElem fuel (s.withState st) =
      (shardGetNextElem fuel s).map fun r => (r.1.withState st, r.2) := by
  induction fuel generalizing s with
  | zero => rfl
  | succ fuel ih =>
    have hmul : (s.withState st).mulFactor = s.mulFactor.withState st := rfl
    have hcur : (s.mulFactor.withState st).current = s.mulFactor.current := rfl
    rw [shardGetNextElem, shardGetNextElem, hmul, hcur]
    split
    · exact ih s.mulFactor
    · rfl

/-- A call counts what it does and returns the same, whatever the counters are. -/
theorem getNextIpLoop_withState (h : getNextIpLoop fuel s = some r) (st : ShardState) :
    ∃ st', getNextIpLoop fuel (s.withState st) = some (r.1.withState st', r.2) ∧ st.SameSent st' := by
  induction fuel generalizing s st with
  | zero => cases h
  | succ fuel ih =>
    rw [getNextIpLoop] at h ⊢
    rw [shardGetNextElem_withState]
    cases hn : shardGetNextElem fuel s with
    | none =>
      rw [hn] at h
      cases h
    | some q =>
      simp only [hn, Option.map_some] at h ⊢
      by_cases hlast : q.2 = q.1.params.last
      · rw [if_pos hlast] at h
        obtain rfl := Option.some.inj h
        exact ⟨st, if_pos hlast, .refl st⟩
      · rw [if_neg hlast] at h
        rw [if_neg (show ¬ q.2 = (q.1.withState st).params.last from hlast)]
        by_cases hidx : (q.2 + 2 ^ 32 - 1) % 2 ^ 32 < q.1.maxIndex
        · rw [if_pos hidx] at h
          obtain rfl := Option.some.inj h
          exact ⟨{ st with whitelisted := (st.whitelisted + 1) % 2 ^ 32 }, if_pos hidx, ⟨rfl, rfl, rfl⟩⟩
        · rw [if_neg hidx] at h
          rw [if_neg (show ¬ (q.2 + 2 ^ 32 - 1) % 2 ^ 32 < (q.1.withState st).maxIndex from hidx)]
          obtain ⟨st', hst', hsame⟩ := ih h { st with blacklisted := (st.blacklisted + 1) % 2 ^ 32 }
          exact ⟨st', hst', hsame.maxTargets, hsame.sent, hsame.triedSent⟩

theorem xmShardGetNextIp_withState (h : xmShardGetNextIp fuel s = some r) (st : ShardState) :
    ∃ st', xmShardGetNextIp fuel (s.withState st) = some (r.1.withState st', r.2) ∧ st.SameSent st' := by
  unfold xmShardGetNextIp at h ⊢
  by_cases hz : s.current = xmShardDone
  · rw [if_pos hz] at h
    obtain rfl := Option.some.inj h
    exact ⟨st, if_pos hz, .refl st⟩
  · rw [if_neg hz] at h
    rw [if_neg (show ¬ (s.withState st).current = xmShardDone from hz)]
    exact getNextIpLoop_withState h st

theorem xmShardGetNextIp_sameSent (h : xmShardGetNextIp fuel s = some r) :
    s.state.SameSent r.1.state := by
  obtain ⟨st', hst', hsame⟩ := xmShardGetNextIp_withState h s.state
  rw [s.withState_self, h, Option.some_inj] at hst'
  have hstate : r.1.state = st' := congrArg (fun q => q.1.state) hst'
  rwa [hstate]

theorem xmShardCreate_sameSent {shardIdx numShards threadIdx numThreads maxTotal maxIndex : Nat}
    {c : XmCycle} {wblist : XmWblist} {t : XmShard}
    (h : xmShardCreate fuel st shardIdx numShards threadIdx numThreads maxTotal maxIndex c wblist = some t) :
    t.state.sent = st.sent ∧ t.state.triedSent = st.triedSent := by
  obtain ⟨r, hr, rfl⟩ := Option.map_eq_some_iff.mp h
  have hnew : (newShard st (numShards * numThreads) (subIdx shardIdx threadIdx numThreads) maxTotal
      maxIndex c wblist).state.sent = st.sent ∧
      (newShard st (numShards * numThreads) (subIdx shardIdx threadIdx numThreads) maxTotal
        maxIndex c wblist).state.triedSent = st.triedSent := by
    rw [newShard]
    split <;> exact ⟨rfl, rfl⟩
  unfold shardRollToValid at hr
  split at hr
  · obtain rfl := Option.some.inj hr
    exact hnew
  · have hsame := xmShardGetNextIp_sameSent hr
    exact ⟨hsame.sent.trans hnew.1, hsame.triedSent.trans hnew.2⟩

/-! ## The places of an emission -/

/-- A shard that stands at a place of the emission, whatever it has counted. -/
def StandsAt (s : XmShard) (n : Nat) (t : XmShard) (ip : Nat) : Prop :=
  ∃ u, emission s n = some (u, ip) ∧ t = u.withState t.state

theorem standsAt_zero (s : XmShard) : StandsAt s 0 (xmShardGetCurIp s).1 (xmShardGetCurIp s).2 :=
  ⟨(xmShardGetCurIp s).1, emission.eq_1 s, (XmShard.withState_self _).symm⟩

theorem StandsAt.emittedAddr_eq {n ip : Nat} {t : XmShard} (h : StandsAt s n t ip) :
    emittedAddr s n = some ip := by
  obtain ⟨u, hu, -⟩ := h
  rw [emittedAddr, hu]
  rfl

theorem StandsAt.withState {n ip : Nat} {t : XmShard} (h : StandsAt s n t ip) (st : ShardState) :
    StandsAt s n (t.withState st) ip := by
  obtain ⟨u, hu, ht⟩ := h
  refine ⟨u, hu, ?_⟩
  rw [ht]
  rfl

/-- The next call goes on to the next place, unless the emission is over. -/
theorem StandsAt.next {n ip : Nat} {t : XmShard} (h : StandsAt s n t ip)
    (hr : xmShardGetNextIp fuel t = some r) (hne : r.2 ≠ xmShardDone) : StandsAt s (n + 1) r.1 r.2 := by
  obtain ⟨u, hu, ht⟩ := h
  obtain ⟨st', hst', -⟩ := xmShardGetNextIp_withState hr u.state
  have hback : t.withState u.state = u := by
    rw [ht]
    rfl
  rw [hback] at hst'
  have hnext : nextAddr u = some (r.1.withState st', r.2) := nextAddr_eq_some.mpr ⟨⟨fuel, hst'⟩, hne⟩
  refine ⟨r.1.withState st', ?_, rfl⟩
  rw [emission, hu]
  exact hnext

/-- Where there is a next place, a call goes on to it. -/
theorem StandsAt.exists_next {n ip : Nat} {t : XmShard} {q : XmShard × Nat} (h : StandsAt s n t ip)
    (hq : emission s (n + 1) = some q) :
    ∃ fuel r, xmShardGetNextIp fuel t = some r ∧ r.2 = q.2 ∧ q.2 ≠ xmShardDone := by
  obtain ⟨u, hu, ht⟩ := h
  rw [emission, hu] at hq
  obtain ⟨⟨fuel, hfuel⟩, hne⟩ := nextAddr_eq_some.mp hq
  obtain ⟨st', hst', -⟩ := xmShardGetNextIp_withState hfuel t.state
  rw [← ht] at hst'
  exact ⟨fuel, _, hst', rfl, hne⟩

/-- Behind `XM_SHARD_DONE` there is no place. -/
theorem StandsAt.emittedAddr_succ_of_done {n ip : Nat} {t : XmShard} (h : StandsAt s n t ip)
    (hr : xmShardGetNextIp fuel t = some r) (hdone : r.2 = xmShardDone) : emittedAddr s (n + 1) = none := by
  obtain ⟨u, hu, ht⟩ := h
  have hnone : nextAddr u = none := by
    rw [Option.eq_none_iff_forall_ne_some]
    intro q hq
    obtain ⟨⟨fuel', hfuel'⟩, hne⟩ := nextAddr_eq_some.mp hq
    obtain ⟨st', hst', -⟩ := xmShardGetNextIp_withState hfuel' t.state
    rw [← ht] at hst'
    have hmax := xmShardGetNextIp_mono hr (le_max_left fuel fuel')
    rw [xmShardGetNextIp_mono hst' (le_max_right fuel fuel')] at hmax
    exact hne ((congrArg Prod.snd (Option.some.inj hmax)).trans hdone)
  rw [emittedAddr, emission, hu, Option.bind_some, hnone]
  rfl

theorem emission_of_le {m n : Nat} {q : XmShard × Nat} (h : emission s n = some q) (hle : m ≤ n) :
    ∃ r, emission s m = some r := by
  induction n, hle using Nat.le_induction generalizing q with
  | base => exact ⟨q, h⟩
  | succ n _ ih =>
    obtain ⟨r, hr, -⟩ := Option.bind_eq_some_iff.mp h
    exact ih hr

theorem emittedAddr_eq_none_of_le {m n : Nat} (h : emittedAddr s m = none) (hle : m ≤ n) :
    emittedAddr s n = none := by
  cases hq : emission s n with
  | none =>
    rw [emittedAddr, hq]
    rfl
  | some q =>
    obtain ⟨r, hr⟩ := emission_of_le hq hle
    rw [emittedAddr, hr] at h
    cases h

/-! ## Emissions that end -/

theorem emitFrom_done_eq {t : XmShard} {out : List Nat} (h : emitFrom fuel t xmShardDone = some out) :
    out = [] := by
  cases fuel with
  | zero => cases h
  | succ fuel =>
    rw [emitFrom_done (Nat.succ_pos fuel)] at h
    exact (Option.some.inj h).symm

theorem StandsAt.emitFrom {n ip : Nat} {t : XmShard} {out : List Nat} (h : StandsAt s n t ip)
    (hne : ip ≠ xmShardDone) (hout : emitFrom fuel t ip = some out) (i : Nat) :
    emittedAddr s (n + i) = out[i]? := by
  induction fuel generalizing n t ip out i with
  | zero => cases hout
  | succ fuel ih =>
    rw [emitFrom_succ hne] at hout
    cases hr : xmShardGetNextIp fuel t with
    | none =>
      rw [hr] at hout
      cases hout
    | some r =>
      simp only [hr, Option.map_eq_some_iff] at hout
      obtain ⟨rest, hrest, rfl⟩ := hout
      cases i with
      | zero => exact h.emittedAddr_eq
      | succ i =>
        rw [List.getElem?_cons_succ]
        by_cases hdone : r.2 = xmShardDone
        · have hnil : rest = [] := emitFrom_done_eq (hdone ▸ hrest)
          rw [hnil, List.getElem?_nil]
          exact emittedAddr_eq_none_of_le (h.emittedAddr_succ_of_done hr hdone) (by omega)
        · rw [← ih (h.next hr hdone) hdone hrest i]
          congr 1
          omega

/-- The addresses that a shard emits until it stops are those of its emission. -/
theorem emittedAddr_of_emit {out : List Nat} (hne : out ≠ []) (hout : emit fuel s = some out) (i : Nat) :
    emittedAddr s i = out[i]? := by
  rw [emit] at hout
  have hcur : (xmShardGetCurIp s).2 ≠ xmShardDone := fun hdone => hne (emitFrom_done_eq (hdone ▸ hout))
  have h := (standsAt_zero s).emitFrom hcur hout i
  rwa [Nat.zero_add] at h

end

/-! ## A list of two addresses -/

def pairEntry : CidrArray := ⟨["1.2.3.4/31".toList], by decide⟩

abbrev pairArgs : WblistArgs := arrayArgs pairEntry noEntry

theorem pairArgs_admits {a : Nat} (ha : a < 2 ^ 32) (h : Admits quadHost pairArgs a) :
    a = 0x01020304 ∨ a = 0x01020305 := by
  have hwrites : whitelistWrites quadHost pairArgs = [⟨0x01020304, 31⟩] := by decide
  have hlist : effectiveWhitelist quadHost pairArgs = [⟨bits 0x01020304, 31⟩] := by
    rw [effectiveWhitelist, if_pos (by decide), hwrites]
    simp [effective, Write.block]
  obtain ⟨_, ⟨w, hw, hc⟩, -⟩ := h
  rw [hlist, List.mem_singleton] at hw
  subst hw
  have hagree := (agree_wordPath (k := 32) (d := 31) (by omega) (by decide) ha).mp hc
  omega

theorem pairArgs_numbering : numbering quadHost pairArgs = [0x01020304, 0x01020305] := by
  have hwords : Trie.words (XmNode.keepAt true) addrAllowed (wblistTree quadHost pairArgs).root.toTrie 32 =
      [0x01020304, 0x01020305] := by decide +kernel
  have hsub : numbering quadHost pairArgs ⊆ [0x01020304, 0x01020305] := by
    intro a ha
    obtain ⟨hlt, hel⟩ := mem_numbering.mp ha
    simpa using pairArgs_admits hlt hel.admits
  have hle : (numbering quadHost pairArgs).length ≤ 2 := (numbering_nodup.subperm hsub).length_le
  -- the radix array of the list is empty
  rw [numbering, indexList, hwords] at hle ⊢
  generalize blockWords (2 ^ 12) _ = blocks at hle ⊢
  rw [List.length_append] at hle
  have hzero : blocks.length = 0 := Nat.le_zero.mp (Nat.le_of_add_le_add_right hle)
  rw [List.length_eq_zero_iff.mp hzero, List.nil_append]

theorem pairArgs_count : xmWblistCountAllowed (builtList quadHost pairArgs) = 2 := by
  rw [builtList_count_eq, pairArgs_numbering]
  rfl

theorem pairArgs_create : xmWblistCreate quadHost pairArgs = some (builtList quadHost pairArgs) :=
  xmWblistCreate_eq_some.mpr ⟨rfl, by rw [pairArgs_numbering]; simp⟩

/-- A shard that emits the two addresses, in their order. -/
abbrev pairShard : XmShard :=
  newShard zeroState (1 * 1) (subIdx 0 0 1) 1 2 leastCycle (builtList quadHost pairArgs)

theorem pairShard_create :
    xmShardCreate 0 zeroState 0 1 0 1 1 2 leastCycle (builtList quadHost pairArgs) = some pairShard :=
  xmShardCreate_of_valid (by decide +kernel)

theorem pairShard_emits : Emits pairShard [0x04030201, 0x05030201] := by
  have hready : Ready pairShard.maxIndex pairShard.wblist := by
    have hr : Ready (numbering quadHost pairArgs).length (builtList quadHost pairArgs) :=
      builtList_ready (by rw [pairArgs_numbering]; simp)
    rwa [pairArgs_numbering] at hr
  have hfits := rangeFits_of_fits (c := leastCycle) (n := 1 * 1) (i := subIdx 0 0 1)
    (XmCycle.fits_of_prime_lt (by decide))
  have hcloses := closes_of_fits leastCycle_isGenerator hfits (by decide +kernel)
  refine (emits_iff_closes hready (by decide +kernel) (newShard_current_lt ..) rfl).mpr ⟨_, hcloses, ?_⟩
  have hvisits : (shardParams leastCycle (1 * 1) (subIdx 0 0 1)).visits 2
      (leastCycle.walkLength (1 * 1) (subIdx 0 0 1)) = [1, 2] := by decide +kernel
  rw [newShard_params, newShard_maxIndex, hvisits, newShard_wblist]
  have helem : ∀ i a, (numbering quadHost pairArgs)[i]? = some a →
      elemAddr (builtList quadHost pairArgs) (i + 1) = ntohl a := fun i a hi => addrAt_eq hi
  have hfirst := helem 0 0x01020304 (by rw [pairArgs_numbering]; rfl)
  have hsecond := helem 1 0x01020305 (by rw [pairArgs_numbering]; rfl)
  rw [addrsOf, List.map_cons, List.map_singleton, hfirst, hsecond]
  decide

theorem pairShard_emittedAddr (i : Nat) : emittedAddr pairShard i = [0x04030201, 0x05030201][i]? := by
  obtain ⟨fuel, r, hroll, fuel', hemit⟩ := pairShard_emits
  have hvalid : currentIndex pairShard < pairShard.maxIndex := by decide +kernel
  rw [shardRollToValid, if_pos hvalid] at hroll
  obtain rfl := Option.some.inj hroll
  exact emittedAddr_of_emit (by simp) hemit i

end Xmap.Target
