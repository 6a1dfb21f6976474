import Xmap.Target.WorkTheorems
import Xmap.Task.ListTheorems
import Xmap.Task.RecvTheorems

/-!
# Theorems on the end of sending

Nothing ever sets `xsend.start`, `xsend.complete` or `xsend.finish`. So the runtime is measured from time 0,
and the receiver is not told when the last sender returns.
-/

namespace Xmap.Task

open Xmap.Lib Xmap.Target

/-- All senders have returned, the last one at the given time. -/
structure WorkSys.SendingEnded (s : WorkSys) (time : ℚ) : Prop where
  returned : ∀ x ∈ s.senders, ∃ exit at', x.pc = .returned exit at' ∧ at' ≤ time
  last : ∃ x ∈ s.senders, ∃ exit, x.pc = .returned exit time

/-- What the senders and the receiver owe each other. -/
structure LifeCycle (context : WorkContext) (s : WorkSys) : Prop where
  runtime : ∀ x ∈ s.senders, ∀ time, x.pc = .returned .maxRuntime time →
    ∀ began, s.began = some began → began + context.send.maxRuntime.toNat ≤ time
  complete : (∀ x ∈ s.senders, x.Returned) → s.complete = true
  finish : (∀ x ∈ s.senders, x.Returned) → s.SendingEnded s.finish
  cooldown : (∀ x ∈ s.senders, x.Returned) → ∀ now,
    s.finish + context.recv.cooldownSecs < now → CooldownOver context.recv s.complete now s.finish

/-- The walk of the shard comes to an address on the list before its end. -/
inductive ListedAhead (pbm : Pbm) : XmShard → Nat → Prop where
  | here {s : XmShard} {ip : Nat} (h : listed pbm ip = true) : ListedAhead pbm s ip
  | next {fuel : Nat} {s t : XmShard} {ip ip' : Nat} (h : xmShardGetNextIp fuel s = some (t, ip'))
      (hne : ip' ≠ xmShardDone) (hahead : ListedAhead pbm (XmShard.countTried t) ip') : ListedAhead pbm s ip

/-- The tests that the sender comes to next do not end its loop. -/
def Sender.StaysIn (context : WorkContext) (s : WorkSys) (x : Sender) : Prop :=
  match x.pc with
  | .begin => ∀ pbm ∈ context.send.listOfIps,
      ListedAhead pbm (xmShardGetCurIp x.shard).1 (xmShardGetCurIp x.shard).2
  | .head => s.recv.task.xrecv.complete = false ∧ ¬ QuotaReached x.shard
  | .timed => (context.send.maxRuntime = 0 ∨ s.clock < context.send.maxRuntime.toNat) ∧
      x.currentIp ≠ xmShardDone
  | .active => ∀ pbm ∈ context.send.listOfIps, ∀ fuel t ip,
      xmShardGetNextIp fuel (XmShard.countSent x.shard) = some (t, ip) → ip ≠ xmShardDone → ListedAhead pbm t ip
  | .returned _ _ => True

/-- At the test of the runtime there is no limit, or the clock has not reached it, or sending has gone on for
as long. -/
def RuntimeInOrder (context : WorkContext) (s : WorkSys) (x : Sender) : Prop :=
  x.pc = .timed → context.send.maxRuntime = 0 ∨ s.clock < context.send.maxRuntime.toNat ∨
    ∀ began, s.began = some began → began + context.send.maxRuntime.toNat ≤ s.clock

/-- A sender that takes a step is in order at the test of the runtime, and it stays in its loop where all the
others have returned. -/
def StepsInOrder (context : WorkContext) (s : WorkSys) (a : WorkAction) : Prop :=
  ∀ i fuel x, a = .sender i fuel → s.senders[i]? = some x →
    RuntimeInOrder context s x ∧
      (x.StaysIn context s ∨ ∃ j z, j ≠ i ∧ s.senders[j]? = some z ∧ ¬ z.Returned)

/-- The fields of `xsend` stay as they were set up, and no sender has taken a step before one began. -/
structure WorkSys.Unset (s : WorkSys) : Prop where
  start : s.start = 0
  complete : s.complete = false
  began : s.began = none → ∀ x ∈ s.senders, x.pc = .begin

/-! ## The senders that stay -/

section
variable {context : WorkContext} {s : WorkSys} {x : Sender} {r : SendStep} {pbm : Pbm} {fuel : Nat}

/-- The loops that skip addresses give one exactly where one on the list is ahead. -/
theorem skipUnlisted_isSome_iff {t : XmShard} {ip : Nat} {q : XmShard × Option Nat}
    (h : skipUnlisted pbm fuel t ip = some q) : q.2.isSome ↔ ListedAhead pbm t ip := by
  induction fuel generalizing t ip with
  | zero => cases h
  | succ fuel ih =>
    cases hlisted : listed pbm ip with
    | true =>
      rw [skipUnlisted_of_listed fuel hlisted] at h
      obtain rfl := Option.some.inj h
      exact iff_of_true rfl (.here hlisted)
    | false =>
      have hahead {fuel' : Nat} {u : XmShard × Nat} (hu : xmShardGetNextIp fuel' t = some u) :
          ListedAhead pbm t ip ↔ u.2 ≠ xmShardDone ∧ ListedAhead pbm (XmShard.countTried u.1) u.2 := by
        refine ⟨fun hlist => ?_, fun ⟨hne, hlist⟩ => .next hu hne hlist⟩
        cases hlist with
        | here hip => exact absurd (hlisted.symm.trans hip) Bool.false_ne_true
        | next hv hne hlist =>
          obtain rfl := xmShardGetNextIp_unique hu hv
          exact ⟨hne, hlist⟩
      rw [skipUnlisted_of_not fuel hlisted] at h
      cases hn : xmShardGetNextIp fuel t with
      | none =>
        rw [hn] at h
        cases h
      | some u =>
        simp only [hn] at h
        rw [hahead hn]
        by_cases hdone : u.2 = xmShardDone
        · rw [if_pos hdone] at h
          obtain rfl := Option.some.inj h
          exact iff_of_false Bool.false_ne_true fun hlist => hlist.1 hdone
        · rw [if_neg hdone] at h
          rw [ih h, and_iff_right hdone]

theorem take_goesOn_iff (q : XmShard × Option Nat) : (∃ y, x.take q = .goesOn y) ↔ q.2.isSome := by
  obtain ⟨t, ip⟩ := q
  cases ip with
  | none => exact iff_of_false (fun ⟨_, h⟩ => by cases h) Bool.false_ne_true
  | some ip => exact iff_of_true ⟨_, rfl⟩ rfl

theorem firstIp_isSome_iff {q : XmShard × Option Nat} (h : firstIp context.send fuel x.shard = some q) :
    q.2.isSome ↔ ∀ pbm ∈ context.send.listOfIps,
      ListedAhead pbm (xmShardGetCurIp x.shard).1 (xmShardGetCurIp x.shard).2 := by
  unfold firstIp at h
  dsimp only at h
  split at h
  · next hlist =>
    obtain rfl := Option.some.inj h
    exact iff_of_true rfl (by simp [hlist])
  · next pbm hlist =>
    rw [skipUnlisted_isSome_iff h, hlist]
    simp

theorem nextIp_isSome_iff {q : XmShard × Option Nat} (h : nextIp context.send fuel x.shard = some q) :
    q.2.isSome ↔ ∀ pbm ∈ context.send.listOfIps, ∀ fuel t ip,
      xmShardGetNextIp fuel (XmShard.countSent x.shard) = some (t, ip) → ip ≠ xmShardDone → ListedAhead pbm t ip := by
  unfold nextIp at h
  split at h
  · cases h
  · next t ip hn =>
    split at h
    · next hlist =>
      obtain rfl := Option.some.inj h
      exact iff_of_true rfl (by simp [hlist])
    · next pbm hlist =>
      split at h
      · next hdone =>
        obtain rfl := Option.some.inj h
        refine iff_of_true rfl fun pbm' _ fuel' t' ip' hn' hne => ?_
        cases xmShardGetNextIp_unique hn hn'
        exact absurd hdone hne
      · next hne =>
        rw [skipUnlisted_isSome_iff h]
        constructor
        · intro hahead pbm' hpbm fuel' t' ip' hn' _
          cases xmShardGetNextIp_unique hn hn'
          rw [hlist] at hpbm
          cases hpbm
          exact hahead
        · exact fun hall => hall pbm hlist fuel t ip hn hne

/-- The runtime is measured from time 0. -/
theorem WorkSys.Unset.runtimeOver_iff (hs : s.Unset) (context : WorkContext) :
    RuntimeOver context.send s.shared.now s.shared.start ↔
      context.send.maxRuntime ≠ 0 ∧ (context.send.maxRuntime.toNat : ℚ) ≤ s.clock := by
  rw [WorkSys.shared, hs.start, RuntimeOver, sub_zero]

/-- A sender goes on exactly where it stays in its loop. -/
theorem sendStep_goesOn_iff (hs : s.Unset) (h : sendStep context.send s.shared fuel x = some r) :
    (∃ y, r = .goesOn y) ↔ x.StaysIn context s := by
  have hover : RuntimeOver context.send s.shared.now s.shared.start ↔
      ¬ (context.send.maxRuntime = 0 ∨ s.clock < context.send.maxRuntime.toNat) := by
    rw [hs.runtimeOver_iff context, not_or, not_lt]
  unfold Sender.StaysIn
  cases sendStep_move h with
  | first fuel hpc hr =>
    rw [take_goesOn_iff, firstIp_isSome_iff hr]
    simp only [hpc]
  | complete hpc hcomplete =>
    simp only [hpc]
    refine iff_of_false (fun ⟨_, h⟩ => by cases h) fun hstays => ?_
    exact Bool.false_ne_true (hstays.1.symm.trans hcomplete)
  | quota hpc hquota =>
    simp only [hpc]
    exact iff_of_false (fun ⟨_, h⟩ => by cases h) fun hstays => hstays.2 hquota
  | pass hpc hquota hcomplete =>
    simp only [hpc]
    exact iff_of_true ⟨_, rfl⟩ ⟨hcomplete, hquota⟩
  | runtime hpc hruntime =>
    simp only [hpc]
    exact iff_of_false (fun ⟨_, h⟩ => by cases h) fun hstays => hover.mp hruntime hstays.1
  | depleted hpc hdone hruntime =>
    simp only [hpc]
    exact iff_of_false (fun ⟨_, h⟩ => by cases h) fun hstays => hstays.2 hdone
  | active hpc hdone hruntime =>
    simp only [hpc]
    exact iff_of_true ⟨_, rfl⟩ ⟨not_not.mp fun hn => hruntime (hover.mpr hn), hdone⟩
  | next fuel hpc hr =>
    rw [take_goesOn_iff, nextIp_isSome_iff hr]
    simp only [hpc]

end

/-! ## The order over a run -/

section
variable {context : WorkContext} {s t : WorkSys} {a : WorkAction}

theorem xmWorkStart_unset (shards : List XmShard) (recv : RecvSys) (clock : ℚ) :
    (xmWorkStart shards recv clock).Unset where
  start := rfl
  complete := rfl
  began := by
    intro _ x hx
    obtain ⟨shard, _, rfl⟩ := List.mem_map.mp hx
    rfl

theorem afterSend_began (i : Nat) (r : SendStep) :
    (s.afterSend i r).began = some (s.began.getD s.clock) := by
  cases r <;> rfl

theorem WorkSys.Unset.step (h : workStep context s a = some t) (hs : s.Unset) : t.Unset := by
  cases workStep_move h with
  | tick hle => exact ⟨hs.start, hs.complete, hs.began⟩
  | sender hx hstep =>
    refine ⟨?_, ?_, fun hbegan => ?_⟩
    · rw [← hs.start]
      unfold WorkSys.afterSend
      split <;> rfl
    · rw [← hs.complete]
      unfold WorkSys.afterSend
      split <;> rfl
    · rw [afterSend_began] at hbegan
      cases hbegan
  | receiver hrunning hrecv =>
    exact ⟨by simpa using hs.start, by simpa using hs.complete, by simpa using hs.began⟩

/-- As long as the fields are not set, the life cycle is in order where a sender is running and no sender has
left too early. -/
theorem lifeCycle_iff (hs : s.Unset) :
    LifeCycle context s ↔
      (∀ x ∈ s.senders, ∀ time, x.pc = .returned .maxRuntime time →
        ∀ began, s.began = some began → began + context.send.maxRuntime.toNat ≤ time) ∧
      ∃ x ∈ s.senders, ¬ x.Returned := by
  constructor
  · intro h
    refine ⟨h.runtime, ?_⟩
    by_contra hall
    simp only [not_exists, not_and, not_not] at hall
    have := h.complete hall
    rw [hs.complete] at this
    cases this
  · rintro ⟨hruntime, x, hx, hrunning⟩
    exact ⟨hruntime, fun hall => absurd (hall x hx) hrunning,
      fun hall => absurd (hall x hx) hrunning, fun hall => absurd (hall x hx) hrunning⟩

theorem mem_set_iff {l : List Sender} {i : Nat} {x y z : Sender} (hx : l[i]? = some x) :
    z ∈ l.set i y ↔ z = y ∨ ∃ j, j ≠ i ∧ l[j]? = some z := by
  have hlt : i < l.length := (List.getElem?_eq_some_iff.mp hx).1
  rw [List.mem_iff_getElem?]
  constructor
  · rintro ⟨j, hj⟩
    rw [List.getElem?_set] at hj
    split at hj
    · next hij =>
      cases hj
      exact Or.inl rfl
    · next hij => exact Or.inr ⟨j, Ne.symm hij, hj⟩
  · rintro (rfl | ⟨j, hij, hj⟩)
    · exact ⟨i, by simp [hlt]⟩
    · exact ⟨j, by rw [List.getElem?_set_ne (Ne.symm hij), hj]⟩

/-- The senders that have left did so in time, whenever the first one began. -/
theorem WorkSys.Unset.left_in_time (hs : s.Unset)
    (hruntime : ∀ x ∈ s.senders, ∀ time, x.pc = .returned .maxRuntime time →
      ∀ began, s.began = some began → began + context.send.maxRuntime.toNat ≤ time)
    {x : Sender} (hx : x ∈ s.senders) {time : ℚ} (hpc : x.pc = .returned .maxRuntime time) :
    s.began.getD s.clock + context.send.maxRuntime.toNat ≤ time := by
  cases hb : s.began with
  | none => cases (hs.began hb x hx).symm.trans hpc
  | some began => exact hruntime x hx time hpc began hb

theorem Sender.take_ne_maxRuntime {x y : Sender} {q : XmShard × Option Nat} :
    x.take q ≠ .leaves y .maxRuntime := by
  obtain ⟨t, ip⟩ := q
  cases ip <;> exact fun h => by cases h

/-- A sender leaves by the test of the runtime where it is over. -/
theorem sendStep_maxRuntime_iff {x : Sender} {r : SendStep} {fuel : Nat} (hs : s.Unset)
    (h : sendStep context.send s.shared fuel x = some r) :
    (∃ y, r = .leaves y .maxRuntime) ↔
      x.pc = .timed ∧ context.send.maxRuntime ≠ 0 ∧ (context.send.maxRuntime.toNat : ℚ) ≤ s.clock := by
  have hover := hs.runtimeOver_iff context
  cases sendStep_move h with
  | first fuel hpc hr =>
    refine iff_of_false (fun ⟨y, hy⟩ => ?_) fun hrun => by cases hpc.symm.trans hrun.1
    exact Sender.take_ne_maxRuntime hy
  | complete hpc hcomplete =>
    exact iff_of_false (fun ⟨_, hy⟩ => by cases hy) fun hrun => by cases hpc.symm.trans hrun.1
  | quota hpc hquota =>
    exact iff_of_false (fun ⟨_, hy⟩ => by cases hy) fun hrun => by cases hpc.symm.trans hrun.1
  | pass hpc hquota hcomplete =>
    exact iff_of_false (fun ⟨_, hy⟩ => by cases hy) fun hrun => by cases hpc.symm.trans hrun.1
  | runtime hpc hruntime => exact iff_of_true ⟨_, rfl⟩ ⟨hpc, hover.mp hruntime⟩
  | depleted hpc hdone hruntime =>
    exact iff_of_false (fun ⟨_, hy⟩ => by cases hy) fun hrun => hruntime (hover.mpr hrun.2)
  | active hpc hdone hruntime =>
    exact iff_of_false (fun ⟨_, hy⟩ => by cases hy) fun hrun => hruntime (hover.mpr hrun.2)
  | next fuel hpc hr =>
    refine iff_of_false (fun ⟨y, hy⟩ => ?_) fun hrun => by cases hpc.symm.trans hrun.1
    exact Sender.take_ne_maxRuntime hy

theorem runtimeInOrder_of_not {x : Sender}
    (h : ¬ (x.pc = .timed ∧ context.send.maxRuntime ≠ 0 ∧ (context.send.maxRuntime.toNat : ℚ) ≤ s.clock)) :
    RuntimeInOrder context s x := by
  intro hpc
  by_cases hzero : context.send.maxRuntime = 0
  · exact Or.inl hzero
  · exact Or.inr (Or.inl (not_le.mp fun hle => h ⟨hpc, hzero, hle⟩))

/-- A step keeps the life cycle in order exactly when it is in order. -/
theorem lifeCycle_step (h : workStep context s a = some t) (hs : s.Unset)
    (hlife : LifeCycle context s) : LifeCycle context t ↔ StepsInOrder context s a := by
  have ht := hs.step h
  rw [lifeCycle_iff ht]
  rw [lifeCycle_iff hs] at hlife
  obtain ⟨hruntime, w, hw, hwrunning⟩ := hlife
  cases workStep_move h with
  | tick hle =>
    refine iff_of_true ⟨hruntime, w, hw, hwrunning⟩ ?_
    intro i fuel x ha
    cases ha
  | receiver hrunning hrecv =>
    refine iff_of_true ?_ ?_
    · simp only [afterRound_senders, afterRound_began]
      exact ⟨hruntime, w, hw, hwrunning⟩
    · intro i fuel x ha
      cases ha
  | @sender i fuel x r hx hstep =>
    have hstays := sendStep_goesOn_iff hs hstep
    have hover := sendStep_maxRuntime_iff hs hstep
    cases r with
    | goesOn y =>
      have hy : ¬ y.Returned := (sendStep_move hstep).not_returned
      have hmem : ∀ z, z ∈ s.senders.set i y ↔ z = y ∨ ∃ j, j ≠ i ∧ s.senders[j]? = some z :=
        fun z => mem_set_iff hx
      refine iff_of_true ⟨?_, y, (hmem y).mpr (Or.inl rfl), hy⟩ ?_
      · intro z hz time hpc began hbegan
        rw [afterSend_began] at hbegan
        cases hbegan
        rcases (hmem z).mp hz with rfl | ⟨j, hij, hj⟩
        · exact absurd ⟨_, time, hpc⟩ hy
        · exact hs.left_in_time hruntime (List.mem_of_getElem? hj) hpc
      · intro i' fuel' x' ha hx'
        cases ha
        cases hx.symm.trans hx'
        exact ⟨runtimeInOrder_of_not fun hrun => by simpa using hover.mpr hrun, Or.inl (hstays.mp ⟨y, rfl⟩)⟩
    | leaves y exit =>
      have hmem : ∀ z, z ∈ s.senders.set i { y with pc := .returned exit s.clock } ↔
          z = { y with pc := .returned exit s.clock } ∨ ∃ j, j ≠ i ∧ s.senders[j]? = some z :=
        fun z => mem_set_iff hx
      have hleaves : ¬ x.StaysIn context s := fun hstay => by simpa using hstays.mpr hstay
      constructor
      · rintro ⟨hrun, z, hz, hzrunning⟩ i' fuel' x' ha hx'
        cases ha
        cases hx.symm.trans hx'
        refine ⟨?_, Or.inr ?_⟩
        · by_cases hexit : exit = .maxRuntime
          · subst hexit
            refine fun _ => Or.inr (Or.inr fun began hbegan => ?_)
            refine hrun _ ((hmem _).mpr (Or.inl rfl)) s.clock rfl began ?_
            rw [afterSend_began, hbegan]
            rfl
          · exact runtimeInOrder_of_not fun hrun' => hexit (by simpa using hover.mpr hrun')
        · rcases (hmem z).mp hz with rfl | ⟨j, hij, hj⟩
          · exact absurd ⟨_, _, rfl⟩ hzrunning
          · exact ⟨j, z, hij, hj, hzrunning⟩
      · intro horder
        obtain ⟨htimed, hother⟩ := horder i fuel x rfl hx
        obtain ⟨j, z, hij, hj, hzrunning⟩ := hother.resolve_left hleaves
        refine ⟨?_, z, (hmem z).mpr (Or.inr ⟨j, hij, hj⟩), hzrunning⟩
        intro z' hz' time hpc began hbegan
        rw [afterSend_began] at hbegan
        cases hbegan
        rcases (hmem z').mp hz' with rfl | ⟨k, hik, hk⟩
        · cases hpc
          obtain ⟨hpc, hne, hle⟩ := hover.mp ⟨y, rfl⟩
          cases hb : s.began with
          | none => cases (hs.began hb x (List.mem_of_getElem? hx)).symm.trans hpc
          | some began =>
            exact ((htimed hpc).resolve_left hne).resolve_left (not_lt.mpr hle) began hb
        · exact hs.left_in_time hruntime (List.mem_of_getElem? hk) hpc

end

/-- In every run, the life cycle is in order in every state if and only if there is a sender and all senders
take their steps in order. -/
theorem workStates_lifeCycle_iff (context : WorkContext) (shards : List XmShard) (recv : RecvSys)
    (clock : ℚ) (acts : List WorkAction) :
    (∀ s ∈ workStates context shards recv clock acts, LifeCycle context s) ↔
      shards ≠ [] ∧
        Meets (workStep context) (StepsInOrder context) (xmWorkStart shards recv clock) acts := by
  have hunset := xmWorkStart_unset shards recv clock
  have hstart : LifeCycle context (xmWorkStart shards recv clock) ↔ shards ≠ [] := by
    rw [lifeCycle_iff hunset]
    constructor
    · rintro ⟨_, x, hx, _⟩ rfl
      cases hx
    · intro hne
      obtain ⟨shard, hshard⟩ := List.exists_mem_of_ne_nil shards hne
      have hbegin := hunset.began rfl
      have hmem : (⟨shard, 0, .begin, []⟩ : Sender) ∈ (xmWorkStart shards recv clock).senders :=
        List.mem_map_of_mem hshard
      refine ⟨fun x hx time hpc => ?_, _, hmem, ?_⟩
      · cases (hbegin x hx).symm.trans hpc
      · rintro ⟨exit, time, hpc⟩
        cases hpc
  rw [← hstart]
  constructor
  · intro hall
    have hlife := hall _ self_mem_states
    exact ⟨hlife, (states_iff_meets (fun _ _ _ => WorkSys.Unset.step)
      (fun _ _ _ => lifeCycle_step) hunset hlife).mp hall⟩
  · rintro ⟨hlife, hmeets⟩
    exact (states_iff_meets (fun _ _ _ => WorkSys.Unset.step)
      (fun _ _ _ => lifeCycle_step) hunset hlife).mpr hmeets

/-- Without a list, a sender whose quota is not reached leaves at its third step where the runtime is over. -/
theorem workStates_runtimeOver (context : WorkContext) (shard : XmShard) (recv : RecvSys) (clock : ℚ)
    (hlist : context.send.listOfIps = none) (hrecv : recv.task.xrecv.complete = false)
    (hquota : ¬ QuotaReached shard) (hover : RuntimeOver context.send clock 0) :
    ∃ s ∈ workStates context [shard] recv clock (List.replicate 3 (.sender 0 0)),
      (∀ x ∈ s.senders, x.pc = .returned .maxRuntime clock ∧ x.hosts = []) ∧
        s.senders ≠ [] ∧ s.began = some clock ∧ s.complete = false := by
  have hquota' : ¬ QuotaReached (xmShardGetCurIp shard).1 := by
    rwa [QuotaReached, xmShardGetCurIp_state]
  generalize hr : xmShardGetCurIp shard = r at hquota'
  have hstates : ⟨clock, 0, 0, false, some clock, [⟨r.1, r.2, .returned .maxRuntime clock, []⟩],
      recv, false⟩ ∈ workStates context [shard] recv clock (List.replicate 3 (.sender 0 0)) := by
    simp only [workStates, xmWorkStart, xmSendTasks, List.map_cons, List.map_nil, List.replicate]
    rw [states_cons_of_some (t := ⟨clock, 0, 0, false, some clock, [⟨r.1, r.2, .head, []⟩], recv, false⟩),
      states_cons_of_some (t := ⟨clock, 0, 0, false, some clock, [⟨r.1, r.2, .timed, []⟩], recv, false⟩),
      states_cons_of_some (t := ⟨clock, 0, 0, false, some clock,
        [⟨r.1, r.2, .returned .maxRuntime clock, []⟩], recv, false⟩)]
    · simp [states]
    · simp [workStep, sendStep, WorkSys.afterSend, WorkSys.shared, hover]
    · simp [workStep, sendStep, WorkSys.afterSend, WorkSys.shared, hrecv, hquota']
    · simp [workStep, sendStep, firstIp, hlist, hr, Sender.take, WorkSys.afterSend]
  exact ⟨_, hstates, by simp⟩

/-- A scan of one address for at most five seconds. -/
def timedScan : WorkContext := ⟨⟨5, none⟩, portScan 0⟩

/-- Its sender leaves at the first test, without having sent anything, and the receiver is not told. -/
theorem timedScan_not_lifeCycle :
    ∃ shards, workCreateShards 0 (fun _ => zeroState) (workContext (builtList quadHost hostArgs) 1 0xFFFFFFFF)
        1 0 (wordsOf 0) = some shards ∧
      ∃ s ∈ workStates timedScan shards idleReceiver 1000 (List.replicate 3 (.sender 0 0)),
        (∀ x ∈ s.senders, x.pc = .returned .maxRuntime 1000 ∧ x.hosts = []) ∧
          s.began = some 1000 ∧ s.complete = false ∧ ¬ LifeCycle timedScan s := by
  refine ⟨_, hostArgs_createShards (by decide) (fun t ht => ?_) _, ?_⟩
  · obtain rfl : t = 0 := by omega
    decide +kernel
  · have hfive : timedScan.send.maxRuntime.toNat = 5 := rfl
    obtain ⟨s, hs, hsenders, hne, hbegan, hcomplete⟩ := workStates_runtimeOver timedScan
      (newShard zeroState 1 (0 + 1) 0xFFFFFFFF 1 (leastCycleFrom ((0 : Nat → Fin 257) 0))
        (builtList quadHost hostArgs)) idleReceiver 1000 rfl rfl
      (by simp [QuotaReached, newShard, maxTargetsOf, zeroState])
      ⟨by decide, by norm_num [hfive]⟩
    refine ⟨s, hs, hsenders, hbegan, hcomplete, fun hlife => ?_⟩
    obtain ⟨x, hx⟩ := List.exists_mem_of_ne_nil _ hne
    have := hlife.runtime x hx 1000 (hsenders x hx).1 1000 hbegan
    norm_num [hfive] at this

end Xmap.Task
