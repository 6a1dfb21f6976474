import Xmap.Lib.Picks
import Xmap.Lib.Shares
import Xmap.Target.Emission
import Xmap.Task.Lemmas.Work

/-!
# Theorems on a list of addresses with a quota

A sender with a list goes over the addresses that are not on it. It counts them as tried, and the test of the
quota reads this count too.
-/

namespace Xmap.Task

open Xmap.Lib Xmap.Target

/-! ## A sender alone -/

/-- What the next step finds: the time, and fuel for the walk of the shard. -/
structure SendAct where
  fuel : Nat
  now : ℚ
  start : ℚ

/-- The sender after a step. -/
def SendStep.sender (now : ℚ) : SendStep → Sender
  | .goesOn x => x
  | .leaves x exit => { x with pc := .returned exit now }

/-- A step of a sender whose receiver goes on. -/
def sendAlone (context : SendTaskContext) (x : Sender) (a : SendAct) : Option Sender :=
  (sendStep context ⟨false, a.now, a.start⟩ a.fuel x).map (SendStep.sender a.now)

def sendTask (s : XmShard) : Sender := ⟨s, 0, .begin, []⟩

/-- The hosts that probes have been sent to. At its send the sender sends to its current address before
anything else. -/
def Sender.probed (x : Sender) : List Nat := if x.pc = .active then x.currentIp :: x.hosts else x.hosts

/-- The sender is in this state at some time. -/
def Gets (context : SendTaskContext) (s : XmShard) (x : Sender) : Prop :=
  ∃ acts, x ∈ states (sendAlone context) (sendTask s) acts

/-! ## The first addresses on the list -/

def listed (pbm : Pbm) (ip : Nat) : Bool := xmPbmCheck pbm (UInt32.ofNat ip)

/-- The addresses on the list among the first `n` of the emission. -/
noncomputable def listedOf (s : XmShard) (pbm : Pbm) (n : Nat) : List Nat :=
  picks (emittedAddr s) (listed pbm) n

/-- The counters start from zero, and the sender sends to the first `m` addresses of the emission that are on
the list, or to all if there are fewer. -/
structure SendsFirstListed (context : SendTaskContext) (pbm : Pbm) (s : XmShard) (m : Nat) : Prop where
  counters : s.state.sent = 0 ∧ s.state.triedSent = 0
  only : ∀ x, Gets context s x → ∃ n, x.probed.reverse <+: (listedOf s pbm n).take m
  all : ∀ n, ∃ x, Gets context s x ∧ (listedOf s pbm n).take m <+: x.probed.reverse

/-- Each of the first `k` addresses on the list is one of the first `m` of the emission, and none of them is
0.0.0.0. Places are counted as the counter of the tried ones is. -/
def WithinFirst (s : XmShard) (pbm : Pbm) (m k : Nat) : Prop :=
  ∀ n ip, emittedAddr s n = some ip → listed pbm ip = true → (listedOf s pbm n).length < k →
    n % 2 ^ 32 < m ∧ ip ≠ xmShardDone

section
variable {context : SendTaskContext} {pbm : Pbm} {s : XmShard} {m n : Nat}

theorem listedOf_succ {ip : Nat} (hip : emittedAddr s n = some ip) (h : listed pbm ip = true) :
    listedOf s pbm (n + 1) = listedOf s pbm n ++ [ip] := picks_succ_of_mem hip h

theorem listedOf_succ_of_not {ip : Nat} (hip : emittedAddr s n = some ip) (h : listed pbm ip = false) :
    listedOf s pbm (n + 1) = listedOf s pbm n := by
  refine picks_succ_of_not ?_
  rintro ⟨a, ha, hlisted⟩
  obtain rfl := Option.some.inj (hip.symm.trans ha)
  exact Bool.false_ne_true (h.symm.trans hlisted)

theorem WithinFirst.succ {k ip : Nat} (h : WithinFirst s pbm m k) (hk : (listedOf s pbm n).length = k)
    (hip : emittedAddr s n = some ip) (hlisted : listed pbm ip = true) (hroom : n % 2 ^ 32 < m)
    (hne : ip ≠ xmShardDone) : WithinFirst s pbm m (k + 1) := by
  intro j a ha hj hlt
  rcases Nat.lt_or_eq_of_le (Nat.le_of_lt_succ hlt) with hlt | heq
  · exact h j a ha hj hlt
  · obtain rfl : j = n := PickedAt.eq_of_length_eq ⟨a, ha, hj⟩ ⟨ip, hip, hlisted⟩ (heq.trans hk.symm)
    obtain rfl := Option.some.inj (hip.symm.trans ha)
    exact ⟨hroom, hne⟩

/-! ## Addresses that are skipped -/

/-- A shard at a place of the emission that has counted the places before it. -/
structure CountedAt (s : XmShard) (n : Nat) (t : XmShard) (ip : Nat) : Prop where
  stands : StandsAt s n t ip
  tried : t.state.triedSent = n % 2 ^ 32

theorem CountedAt.countTried {t : XmShard} {fuel ip : Nat} {r : XmShard × Nat} (h : CountedAt s n t ip)
    (hr : xmShardGetNextIp fuel t = some r) (hne : r.2 ≠ xmShardDone) :
    CountedAt s (n + 1) (XmShard.countTried r.1) r.2 := by
  refine ⟨(h.stands.next hr hne).withState _, ?_⟩
  have htried := (xmShardGetNextIp_sameSent hr).triedSent
  have hcount := h.tried
  show (r.1.state.triedSent + 1) % 2 ^ 32 = (n + 1) % 2 ^ 32
  omega

/-- A send counts its address as sent and as tried. -/
theorem CountedAt.countSent {t : XmShard} {fuel ip : Nat} {r : XmShard × Nat} (h : CountedAt s n t ip)
    (hr : xmShardGetNextIp fuel (XmShard.countSent t) = some r) (hne : r.2 ≠ xmShardDone) :
    CountedAt s (n + 1) r.1 r.2 := by
  refine ⟨(h.stands.withState (XmShard.countSent t).state).next hr hne, ?_⟩
  have htried : r.1.state.triedSent = (t.state.triedSent + 1) % 2 ^ 32 :=
    (xmShardGetNextIp_sameSent hr).triedSent
  have hcount := h.tried
  omega

theorem skipUnlisted_of_listed {t : XmShard} {ip : Nat} (fuel : Nat) (h : listed pbm ip = true) :
    skipUnlisted pbm (fuel + 1) t ip = some (t, some ip) := if_pos h

theorem skipUnlisted_of_not {t : XmShard} {ip : Nat} (fuel : Nat) (h : listed pbm ip = false) :
    skipUnlisted pbm (fuel + 1) t ip =
      match xmShardGetNextIp fuel t with
      | none => none
      | some (t, ip) =>
        if ip = xmShardDone then some (XmShard.countTried t, none)
        else skipUnlisted pbm fuel (XmShard.countTried t) ip := if_neg fun h' => Bool.false_ne_true (h.symm.trans h')

/-- The loops stop at the next address on the list. -/
theorem skipUnlisted_some {t r : XmShard} {fuel ip ip' : Nat} (hs : CountedAt s n t ip)
    (h : skipUnlisted pbm fuel t ip = some (r, some ip')) :
    ∃ n', CountedAt s n' r ip' ∧ listed pbm ip' = true ∧ listedOf s pbm n' = listedOf s pbm n ∧
      r.state.sent = t.state.sent ∧ r.state.maxTargets = t.state.maxTargets := by
  induction fuel generalizing t ip n with
  | zero => cases h
  | succ fuel ih =>
    cases hlisted : listed pbm ip with
    | true =>
      rw [skipUnlisted_of_listed fuel hlisted] at h
      cases h
      exact ⟨n, hs, hlisted, rfl, rfl, rfl⟩
    | false =>
      rw [skipUnlisted_of_not fuel hlisted] at h
      cases hr : xmShardGetNextIp fuel t with
      | none =>
        rw [hr] at h
        cases h
      | some q =>
        simp only [hr] at h
        by_cases hdone : q.2 = xmShardDone
        · rw [if_pos hdone] at h
          cases h
        · rw [if_neg hdone] at h
          obtain ⟨n', hat, hlisted', heq, hsent, hmax⟩ := ih (hs.countTried hr hdone) h
          have hsame := xmShardGetNextIp_sameSent hr
          refine ⟨n', hat, hlisted', heq.trans ?_, hsent.trans hsame.sent, hmax.trans hsame.maxTargets⟩
          exact listedOf_succ_of_not hs.stands.emittedAddr_eq hlisted

theorem skipUnlisted_mono {t : XmShard} {fuel fuel' ip : Nat} {r : XmShard × Option Nat}
    (h : skipUnlisted pbm fuel t ip = some r) (hle : fuel ≤ fuel') : skipUnlisted pbm fuel' t ip = some r := by
  induction fuel generalizing t ip fuel' with
  | zero => cases h
  | succ fuel ih =>
    obtain ⟨fuel', rfl⟩ : ∃ k, fuel' = k + 1 := ⟨fuel' - 1, by omega⟩
    cases hlisted : listed pbm ip with
    | true =>
      rw [skipUnlisted_of_listed _ hlisted] at h ⊢
      exact h
    | false =>
      rw [skipUnlisted_of_not _ hlisted] at h ⊢
      cases hr : xmShardGetNextIp fuel t with
      | none =>
        rw [hr] at h
        cases h
      | some q =>
        rw [xmShardGetNextIp_mono hr (by omega)]
        simp only [hr] at h ⊢
        by_cases hdone : q.2 = xmShardDone
        · rw [if_pos hdone] at h ⊢
          exact h
        · rw [if_neg hdone] at h ⊢
          exact ih h (by omega)

/-! ## The phases of a sender -/

/-- The sender has sent to the addresses on the list before a place of the emission. -/
structure SentBefore (s : XmShard) (pbm : Pbm) (m n : Nat) (hosts : List Nat) : Prop where
  reverse_eq : hosts.reverse = listedOf s pbm n
  length_le : hosts.length ≤ m
  within : WithinFirst s pbm m hosts.length

/-- The sender is before an address on the list. -/
structure Before (s : XmShard) (pbm : Pbm) (m n : Nat) (x : Sender) : Prop where
  sentBefore : SentBefore s pbm m n x.hosts
  countedAt : CountedAt s n x.shard x.currentIp
  listed : listed pbm x.currentIp = true
  sent : x.shard.state.sent = x.hosts.length
  maxTargets : x.shard.state.maxTargets = m

/-- The test of the quota has passed. -/
def Room (m n : Nat) (x : Sender) : Prop := x.hosts.length < m ∧ n % 2 ^ 32 < m

inductive Phase (s : XmShard) (pbm : Pbm) (m : Nat) (x : Sender) : Prop where
  | begin (hpc : x.pc = .begin) (hshard : x.shard = s) (hhosts : x.hosts = [])
  | head (n : Nat) (hpc : x.pc = .head) (h : Before s pbm m n x)
  | timed (n : Nat) (hpc : x.pc = .timed) (h : Before s pbm m n x) (hroom : Room m n x)
  | active (n : Nat) (hpc : x.pc = .active) (h : Before s pbm m n x) (hroom : Room m n x)
      (hne : x.currentIp ≠ xmShardDone)
  | finished (n : Nat) (hpc : x.pc ≠ .begin ∧ x.pc ≠ .active) (h : SentBefore s pbm m n x.hosts)
      (hdone : x.Returned ∨ x.currentIp = xmShardDone)

theorem sentBefore_nil : SentBefore s pbm m 0 [] :=
  ⟨rfl, Nat.zero_le m, fun _ _ _ _ hlt => absurd hlt (Nat.not_lt_zero _)⟩

theorem Before.withPc {x : Sender} (h : Before s pbm m n x) (pc : SendPc) :
    Before s pbm m n { x with pc := pc } :=
  ⟨h.sentBefore, h.countedAt, h.listed, h.sent, h.maxTargets⟩

theorem Before.cons {x : Sender} (h : Before s pbm m n x) (hroom : Room m n x)
    (hne : x.currentIp ≠ xmShardDone) : SentBefore s pbm m (n + 1) (x.currentIp :: x.hosts) where
  reverse_eq := by
    rw [List.reverse_cons, h.sentBefore.reverse_eq, listedOf_succ h.countedAt.stands.emittedAddr_eq h.listed]
  length_le := hroom.1
  within := by
    have hlength : (listedOf s pbm n).length = x.hosts.length := by
      rw [← h.sentBefore.reverse_eq, List.length_reverse]
    exact h.sentBefore.within.succ hlength h.countedAt.stands.emittedAddr_eq h.listed hroom.2 hne

theorem Phase.sentBefore {x : Sender} (h : Phase s pbm m x) : ∃ n, SentBefore s pbm m n x.probed := by
  rw [Sender.probed]
  cases h with
  | begin hpc hshard hhosts =>
    rw [hpc, hhosts]
    exact ⟨0, sentBefore_nil⟩
  | head n hpc h =>
    rw [hpc]
    exact ⟨n, h.sentBefore⟩
  | timed n hpc h hroom =>
    rw [hpc]
    exact ⟨n, h.sentBefore⟩
  | active n hpc h hroom hne =>
    rw [hpc]
    exact ⟨n + 1, h.cons hroom hne⟩
  | finished n hpc h hdone =>
    rw [if_neg hpc.2]
    exact ⟨n, h⟩

/-- The settings of the run: the list, no limit on the time, and counters from zero. -/
structure Setting (context : SendTaskContext) (pbm : Pbm) (s : XmShard) (m : Nat) : Prop where
  listOfIps : context.listOfIps = some pbm
  maxRuntime : context.maxRuntime = 0
  maxTargets : s.state.maxTargets = m
  maxTargets_pos : 1 ≤ m
  maxTargets_lt : m < 2 ^ 32
  sent : s.state.sent = 0
  triedSent : s.state.triedSent = 0

theorem Setting.countedAt_zero (h : Setting context pbm s m) :
    CountedAt s 0 (xmShardGetCurIp s).1 (xmShardGetCurIp s).2 :=
  ⟨standsAt_zero s, by rw [xmShardGetCurIp_state, h.triedSent, Nat.zero_mod]⟩

/-- The sender behind the loops that skip addresses. -/
theorem phase_of_skipUnlisted {t : XmShard} {fuel ip : Nat} {hosts : List Nat} {r : XmShard × Option Nat}
    {x : Sender} (hs : CountedAt s n t ip) (hx : SentBefore s pbm m n hosts) (hsent : t.state.sent = hosts.length)
    (hmax : t.state.maxTargets = m) (hhosts : x.hosts = hosts) (h : skipUnlisted pbm fuel t ip = some r) (now : ℚ) :
    Phase s pbm m ((x.take r).sender now) := by
  subst hhosts
  obtain ⟨r, next⟩ := r
  cases next with
  | none =>
    exact .finished n ⟨by simp [Sender.take, SendStep.sender], by simp [Sender.take, SendStep.sender]⟩ hx
      (.inl ⟨_, _, rfl⟩)
  | some ip' =>
    obtain ⟨n', hat, hlisted, heq, hsent', hmax'⟩ := skipUnlisted_some hs h
    refine .head n' rfl ⟨?_, hat, hlisted, hsent'.trans hsent, hmax'.trans hmax⟩
    exact ⟨hx.reverse_eq.trans heq.symm, hx.length_le, hx.within⟩

theorem Phase.step {x y : Sender} {a : SendAct} (hset : Setting context pbm s m) (hx : Phase s pbm m x)
    (hstep : sendAlone context x a = some y) : Phase s pbm m y := by
  obtain ⟨r, hr, rfl⟩ := Option.map_eq_some_iff.mp hstep
  cases hx with
  | begin hpc hshard hhosts =>
    simp only [sendStep, hpc, firstIp, hset.listOfIps, hshard] at hr
    obtain ⟨q, hq, rfl⟩ := Option.map_eq_some_iff.mp hr
    refine phase_of_skipUnlisted hset.countedAt_zero sentBefore_nil ?_ ?_ hhosts hq a.now
    · rw [xmShardGetCurIp_state, hset.sent]
      rfl
    · rw [xmShardGetCurIp_state, hset.maxTargets]
  | head n hpc h =>
    simp only [sendStep, hpc, Bool.false_eq_true, if_false] at hr
    split at hr
    · obtain rfl := Option.some.inj hr
      exact .finished n ⟨by simp [SendStep.sender], by simp [SendStep.sender]⟩ h.sentBefore (.inl ⟨_, _, rfl⟩)
    · next hquota =>
      obtain rfl := Option.some.inj hr
      simp only [QuotaReached, h.maxTargets, h.sent, h.countedAt.tried, not_and_or, not_or, not_le] at hquota
      exact .timed n rfl (h.withPc .timed) (hquota.resolve_left fun hzero => hzero (Nat.ne_of_gt hset.maxTargets_pos))
  | timed n hpc h hroom =>
    have hover : ¬ RuntimeOver context a.now a.start := fun hover => hover.1 hset.maxRuntime
    simp only [sendStep, hpc, if_neg hover] at hr
    split at hr
    · obtain rfl := Option.some.inj hr
      exact .finished n ⟨by simp [SendStep.sender], by simp [SendStep.sender]⟩ h.sentBefore (.inl ⟨_, _, rfl⟩)
    · next hne =>
      obtain rfl := Option.some.inj hr
      exact .active n rfl (h.withPc .active) hroom hne
  | active n hpc h hroom hne =>
    simp only [sendStep, hpc, nextIp, hset.listOfIps] at hr
    obtain ⟨q, hq, rfl⟩ := Option.map_eq_some_iff.mp hr
    have hcons := h.cons hroom hne
    cases hnext : xmShardGetNextIp a.fuel (XmShard.countSent x.shard) with
    | none =>
      rw [hnext] at hq
      cases hq
    | some u =>
      simp only [hnext] at hq
      by_cases hdone : u.2 = xmShardDone
      · rw [if_pos hdone] at hq
        obtain rfl := Option.some.inj hq
        exact .finished (n + 1) ⟨by simp [Sender.take, SendStep.sender], by simp [Sender.take, SendStep.sender]⟩
          hcons (.inr hdone)
      · rw [if_neg hdone] at hq
        have hsame := xmShardGetNextIp_sameSent hnext
        have hlt : x.hosts.length + 1 < 2 ^ 32 := lt_of_le_of_lt hroom.1 hset.maxTargets_lt
        refine phase_of_skipUnlisted (h.countedAt.countSent hnext hdone) hcons ?_
          (hsame.maxTargets.trans h.maxTargets) rfl hq a.now
        rw [hsame.sent, List.length_cons, ← h.sent] at *
        exact Nat.mod_eq_of_lt hlt
  | finished n hpc h hdone =>
    -- no step of a sender whose shard is over sends anything
    have hleaves (exit : SendExit) : Phase s pbm m ((SendStep.leaves x exit).sender a.now) :=
      .finished n ⟨by simp [SendStep.sender], by simp [SendStep.sender]⟩ h (.inl ⟨_, _, rfl⟩)
    have hip (hpc : x.pc = .head ∨ x.pc = .timed) : x.currentIp = xmShardDone := by
      refine hdone.resolve_left ?_
      rintro ⟨exit, time, hret⟩
      rcases hpc with hpc | hpc <;> exact absurd (hpc.symm.trans hret) (by simp)
    cases hx : x.pc with
    | begin => exact absurd hx hpc.1
    | active => exact absurd hx hpc.2
    | returned exit time =>
      rw [sendStep, hx] at hr
      cases hr
    | head =>
      simp only [sendStep, hx, Bool.false_eq_true, if_false] at hr
      split at hr
      · obtain rfl := Option.some.inj hr
        exact hleaves _
      · obtain rfl := Option.some.inj hr
        exact .finished n ⟨by simp [SendStep.sender], by simp [SendStep.sender]⟩ h (.inr (hip (.inl hx)))
    | timed =>
      simp only [sendStep, hx, if_pos (hip (.inr hx))] at hr
      split at hr
      · obtain rfl := Option.some.inj hr
        exact hleaves _
      · obtain rfl := Option.some.inj hr
        exact hleaves _

theorem Gets.phase {x : Sender} (hset : Setting context pbm s m) (h : Gets context s x) :
    Phase s pbm m x := by
  obtain ⟨acts, hx⟩ := h
  have hstart : Phase s pbm m (sendTask s) := .begin rfl rfl rfl
  have hall : ∀ t ∈ states (sendAlone context) (sendTask s) acts, Phase s pbm m t :=
    states_invariant (fun _ _ _ hstep ht => ht.step hset hstep) hstart
  exact hall x hx

theorem Gets.step {x y : Sender} {a : SendAct} (h : Gets context s x) (hstep : sendAlone context x a = some y) :
    Gets context s y := by
  obtain ⟨acts, hx⟩ := h
  exact mem_states_step hx hstep

/-! ## The addresses that a sender gets to -/

/-- The loops that skip addresses are at a place of the emission, after the hosts were sent to, and the sender
goes on from where they stop. -/
def SkipsAt (context : SendTaskContext) (s : XmShard) (pbm : Pbm) (m n : Nat) : Prop :=
  ∃ t ip hosts, CountedAt s n t ip ∧ hosts.reverse = listedOf s pbm n ∧ t.state.sent = hosts.length ∧
    t.state.maxTargets = m ∧ (∃ x, Gets context s x ∧ x.probed = hosts) ∧
    ∀ fuel r ip', skipUnlisted pbm fuel t ip = some (r, some ip') → Gets context s ⟨r, ip', .head, hosts⟩

theorem skipsAt_zero (hset : Setting context pbm s m) : SkipsAt context s pbm m 0 := by
  have hstart : Gets context s (sendTask s) := ⟨[], self_mem_states⟩
  refine ⟨_, _, [], hset.countedAt_zero, rfl, ?_, ?_, ⟨_, hstart, rfl⟩, fun fuel r ip' hskip => ?_⟩
  · rw [xmShardGetCurIp_state, hset.sent]
    rfl
  · rw [xmShardGetCurIp_state, hset.maxTargets]
  · refine hstart.step (a := ⟨fuel, 0, 0⟩) ?_
    simp only [sendAlone, sendStep, sendTask, firstIp, hset.listOfIps, hskip]
    rfl

/-- At an address on the list, with room for it, the sender gets to its send. -/
theorem gets_active {t : XmShard} {ip : Nat} {hosts : List Nat} (hset : Setting context pbm s m)
    (hat : CountedAt s n t ip) (hsent : t.state.sent = hosts.length) (hmax : t.state.maxTargets = m)
    (hhead : Gets context s ⟨t, ip, .head, hosts⟩) (hlt : hosts.length < m) (hroom : n % 2 ^ 32 < m)
    (hne : ip ≠ xmShardDone) : Gets context s ⟨t, ip, .active, hosts⟩ := by
  have hquota : ¬ QuotaReached t := by
    rw [QuotaReached, hmax, hsent, hat.tried]
    omega
  have hover : ¬ RuntimeOver context 0 0 := fun hover => hover.1 hset.maxRuntime
  have htimed : Gets context s ⟨t, ip, .timed, hosts⟩ := by
    refine hhead.step (a := ⟨0, 0, 0⟩) ?_
    simp only [sendAlone, sendStep, Bool.false_eq_true, if_false, if_neg hquota]
    rfl
  refine htimed.step (a := ⟨0, 0, 0⟩) ?_
  simp only [sendAlone, sendStep, if_neg hover, if_neg hne]
  rfl

/-- At the first address on the list that is left the sender gets to its send. -/
theorem gets_active_of_skips {t : XmShard} {ip : Nat} {hosts : List Nat} (hset : Setting context pbm s m)
    (hw : WithinFirst s pbm m m) (hat : CountedAt s n t ip) (hhosts : hosts.reverse = listedOf s pbm n)
    (hsent : t.state.sent = hosts.length) (hmax : t.state.maxTargets = m)
    (hgets : ∀ fuel r ip', skipUnlisted pbm fuel t ip = some (r, some ip') → Gets context s ⟨r, ip', .head, hosts⟩)
    (hlisted : listed pbm ip = true) (hlt : hosts.length < m) : Gets context s ⟨t, ip, .active, hosts⟩ := by
  have hlength : (listedOf s pbm n).length = hosts.length := by rw [← hhosts, List.length_reverse]
  obtain ⟨hroom, hne⟩ := hw n ip hat.stands.emittedAddr_eq hlisted (hlength ▸ hlt)
  exact gets_active hset hat hsent hmax (hgets 1 t ip (skipUnlisted_of_listed 0 hlisted)) hlt hroom hne

theorem SkipsAt.succ {q : XmShard × Nat} (hset : Setting context pbm s m) (hw : WithinFirst s pbm m m)
    (h : SkipsAt context s pbm m n) (hq : emission s (n + 1) = some q)
    (hle : (listedOf s pbm (n + 1)).length ≤ m) : SkipsAt context s pbm m (n + 1) := by
  obtain ⟨t, ip, hosts, hat, hhosts, hsent, hmax, hprobed, hgets⟩ := h
  have haddr := hat.stands.emittedAddr_eq
  cases hlisted : listed pbm ip with
  | true =>
    have hsucc := listedOf_succ haddr hlisted
    have hlt : hosts.length < m := by
      rw [hsucc, ← hhosts, List.length_append, List.length_reverse, List.length_singleton] at hle
      exact hle
    have hactive := gets_active_of_skips hset hw hat hhosts hsent hmax hgets hlisted hlt
    obtain ⟨fuel, r, hr, hrq, hne⟩ := (hat.stands.withState (XmShard.countSent t).state).exists_next hq
    have hr : xmShardGetNextIp fuel (XmShard.countSent t) = some r := hr
    have hsame := xmShardGetNextIp_sameSent hr
    refine ⟨r.1, r.2, ip :: hosts, hat.countSent hr (hrq ▸ hne), ?_, ?_, hsame.maxTargets.trans hmax,
      ⟨_, hactive, rfl⟩, fun fuel' u ip' hskip => ?_⟩
    · rw [List.reverse_cons, hhosts, hsucc]
    · have hcount : (XmShard.countSent t).state.sent = (t.state.sent + 1) % 2 ^ 32 := rfl
      have hword : hosts.length + 1 < 2 ^ 32 := lt_of_le_of_lt hlt hset.maxTargets_lt
      rw [hsame.sent, hcount, hsent, List.length_cons, Nat.mod_eq_of_lt hword]
    · have hnext : nextIp context (max fuel fuel') t = some (u, some ip') := by
        rw [nextIp, xmShardGetNextIp_mono hr (le_max_left fuel fuel'), hset.listOfIps]
        dsimp only
        rw [if_neg (hrq ▸ hne), skipUnlisted_mono hskip (le_max_right fuel fuel')]
      refine hactive.step (a := ⟨max fuel fuel', 0, 0⟩) ?_
      simp only [sendAlone, sendStep, hnext]
      rfl
  | false =>
    have hsucc := listedOf_succ_of_not haddr hlisted
    obtain ⟨fuel, r, hr, hrq, hne⟩ := hat.stands.exists_next hq
    have hsame := xmShardGetNextIp_sameSent hr
    refine ⟨XmShard.countTried r.1, r.2, hosts, hat.countTried hr (hrq ▸ hne), hhosts.trans hsucc.symm,
      hsame.sent.trans hsent, hsame.maxTargets.trans hmax, hprobed, fun fuel' u ip' hskip => ?_⟩
    refine hgets (max fuel fuel' + 1) u ip' ?_
    rw [skipUnlisted_of_not _ hlisted, xmShardGetNextIp_mono hr (le_max_left fuel fuel')]
    dsimp only
    rw [if_neg (hrq ▸ hne), skipUnlisted_mono hskip (le_max_right fuel fuel')]

theorem skipsAt_of_emission (hset : Setting context pbm s m) (hw : WithinFirst s pbm m m) {q : XmShard × Nat}
    (hq : emission s n = some q) (hle : (listedOf s pbm n).length ≤ m) : SkipsAt context s pbm m n := by
  induction n generalizing q with
  | zero => exact skipsAt_zero hset
  | succ n ih =>
    obtain ⟨r, hr⟩ := emission_of_le hq (Nat.le_succ n)
    have hbefore := (length_picks_le (Nat.le_succ n)).trans hle
    exact (ih hr hbefore).succ hset hw hq hle

/-- What is on the list among the first addresses, up to the quota, is sent to at some time. -/
theorem exists_gets_take (hset : Setting context pbm s m) (hw : WithinFirst s pbm m m) (n : Nat) :
    ∃ x, Gets context s x ∧ (listedOf s pbm n).take m <+: x.probed.reverse := by
  induction n with
  | zero =>
    refine ⟨sendTask s, ⟨[], self_mem_states⟩, ?_⟩
    rw [listedOf, picks_zero, List.take_nil]
    exact List.nil_prefix
  | succ n ih =>
    by_cases hpicked : PickedAt (emittedAddr s) (listed pbm) n
    · rcases Nat.lt_or_ge (listedOf s pbm n).length m with hlt | hge
      · obtain ⟨ip, hip, hlisted⟩ := hpicked
        obtain ⟨q, hq, rfl⟩ := Option.map_eq_some_iff.mp hip
        obtain ⟨t, ip, hosts, hat, hhosts, hsent, hmax, -, hgets⟩ := skipsAt_of_emission hset hw hq hlt.le
        obtain rfl : ip = q.2 := Option.some.inj (hat.stands.emittedAddr_eq.symm.trans hip)
        have hlength : hosts.length < m := by rwa [← hhosts, List.length_reverse] at hlt
        refine ⟨_, gets_active_of_skips hset hw hat hhosts hsent hmax hgets hlisted hlength, ?_⟩
        show (listedOf s pbm (n + 1)).take m <+: (q.2 :: hosts).reverse
        rw [listedOf_succ hip hlisted, List.reverse_cons, hhosts]
        exact List.take_prefix _ _
      · obtain ⟨x, hx, hprefix⟩ := ih
        have htake : (listedOf s pbm (n + 1)).take m = (listedOf s pbm n).take m := by
          rw [listedOf, picks_succ]
          exact List.take_append_of_le_length hge
        exact ⟨x, hx, htake ▸ hprefix⟩
    · have heq : listedOf s pbm (n + 1) = listedOf s pbm n := picks_succ_of_not hpicked
      rw [heq]
      exact ih

/-! ## When the quota is for the list -/

theorem Setting.sendsFirstListed_iff (hset : Setting context pbm s m) :
    SendsFirstListed context pbm s m ↔ WithinFirst s pbm m m := by
  constructor
  · intro h n ip hip hlisted hlt
    obtain ⟨x, hx, hprefix⟩ := h.all (n + 1)
    obtain ⟨k, hsent⟩ := (hx.phase hset).sentBefore
    have hsucc := listedOf_succ hip hlisted
    have hlength : (listedOf s pbm n).length < x.probed.length := by
      have hle := hprefix.length_le
      rw [hsucc, List.length_take, List.length_append, List.length_singleton, List.length_reverse] at hle
      omega
    exact hsent.within n ip hip hlisted hlength
  · intro hw
    refine ⟨⟨hset.sent, hset.triedSent⟩, fun x hx => ?_, exists_gets_take hset hw⟩
    obtain ⟨n, hsent⟩ := (hx.phase hset).sentBefore
    have hlength : (listedOf s pbm n).length ≤ m := by
      rw [← hsent.reverse_eq, List.length_reverse]
      exact hsent.length_le
    refine ⟨n, ?_⟩
    rw [List.take_of_length_le hlength, hsent.reverse_eq]

end

/-- A sender with a list sends to the first addresses on it, up to its quota, exactly when the memory of its
shard was zero and these addresses are among the first of the emission. -/
theorem sendTask_sendsFirstListed_iff {context : SendTaskContext} {pbm : Pbm}
    (hlist : context.listOfIps = some pbm) (hruntime : context.maxRuntime = 0) {fuel : Nat} {st : ShardState}
    {shardIdx numShards threadIdx numThreads maxTotal maxIndex : Nat} {cycle : XmCycle} {wblist : XmWblist}
    {s : XmShard} (hM : 0 < maxTotal) (hlt : maxTotal < 2 ^ 32)
    (hs : xmShardCreate fuel st shardIdx numShards threadIdx numThreads maxTotal maxIndex cycle wblist = some s)
    (hm : 1 ≤ s.state.maxTargets) :
    SendsFirstListed context pbm s s.state.maxTargets ↔
      (st.sent = 0 ∧ st.triedSent = 0) ∧ WithinFirst s pbm s.state.maxTargets s.state.maxTargets := by
  obtain ⟨hsent, htried⟩ := xmShardCreate_sameSent hs
  have hquota : s.state.maxTargets = share maxTotal (numShards * numThreads)
      (subIdx shardIdx threadIdx numThreads) := xmShardCreate_maxTargets hM hs
  have hword : s.state.maxTargets < 2 ^ 32 := hquota ▸ share_le.trans_lt hlt
  constructor
  · intro h
    obtain ⟨hsent₀, htried₀⟩ := h.counters
    have hset : Setting context pbm s s.state.maxTargets :=
      ⟨hlist, hruntime, rfl, hm, hword, hsent₀, htried₀⟩
    exact ⟨⟨hsent ▸ hsent₀, htried ▸ htried₀⟩, hset.sendsFirstListed_iff.mp h⟩
  · rintro ⟨⟨hsent₀, htried₀⟩, hw⟩
    have hset : Setting context pbm s s.state.maxTargets :=
      ⟨hlist, hruntime, rfl, hm, hword, hsent.trans hsent₀, htried.trans htried₀⟩
    exact hset.sendsFirstListed_iff.mpr hw

/-! ## A list of two addresses -/

/-- A list with the second of two addresses on it. -/
def secondPbm : Pbm := xmPbmSet xmPbmInit 0x05030201

theorem sendTask_sendsFirstListed_iff_pair :
    SendsFirstListed ⟨0, some secondPbm⟩ secondPbm pairShard 1 ↔
      (zeroState.sent = 0 ∧ zeroState.triedSent = 0) ∧ WithinFirst pairShard secondPbm 1 1 :=
  sendTask_sendsFirstListed_iff rfl rfl Nat.one_pos (by decide) pairShard_create le_rfl

/-- The first address is not on the list. It is counted as tried, and the quota of one is used up. -/
theorem sendTask_skipped_uses_quota :
    ∃ wblist s, xmWblistCreate quadHost pairArgs = some wblist ∧
      xmShardCreate 0 zeroState 0 1 0 1 1 (xmWblistCountAllowed wblist) leastCycle wblist = some s ∧
        1 ≤ s.state.maxTargets ∧ ¬ SendsFirstListed ⟨0, some secondPbm⟩ secondPbm s s.state.maxTargets := by
  refine ⟨builtList quadHost pairArgs, pairShard, pairArgs_create, ?_, le_rfl, fun h => ?_⟩
  · rw [pairArgs_count]
    exact pairShard_create
  · have hset : Setting ⟨0, some secondPbm⟩ secondPbm pairShard 1 :=
      ⟨rfl, rfl, rfl, le_rfl, by decide, rfl, rfl⟩
    have hfirst : listedOf pairShard secondPbm 1 = [] :=
      listedOf_succ_of_not (pairShard_emittedAddr 0) (by decide +kernel)
    have hwithin := hset.sendsFirstListed_iff.mp h 1 0x05030201 (pairShard_emittedAddr 1) (by decide +kernel)
      (by rw [hfirst]; exact Nat.one_pos)
    exact absurd hwithin.1 (by decide)

end Xmap.Task
