import Xmap.Thread.Lemmas.Stages

/-!
# Theorems on the end of the wait

A slave that finds no task leaves its loop in the state `RUNNING`, for which `_wait_core` waits for ever. So
does one that cannot write its acknowledgement.
-/

namespace Xmap.Thread

open Xmap.Lib

/-- A slave that has left its loop or is back at the read is not at work, and once all tasks have returned,
`xm_core_pool_wait_for_slaves` returns. -/
structure WaitingEnds (s : PoolSys) : Prop where
  settled : ∀ idx core, IsSlave s.cpool idx → s.cpool.cores[idx]? = some core → core.Settled
  returns : ∀ next, s.master = .wait next →
    (∀ idx core, IsSlave s.cpool idx → s.cpool.cores[idx]? = some core → core.tsk ≠ none →
      core.taskReturned = true) →
    Inevitable poolStep (fun t => t.master = .wait none) s

/-- A core to which the master, where it stands there, writes a command has a task. -/
def CommandServed (cpool : XmCorePool) : MasterPc → Prop
  | .launch (some idx) => ∀ core ∈ cpool.cores[idx]?, core.state = .waiting → core.tsk ≠ none
  | _ => True

/-- A command that is written goes to a core with a task, and an acknowledgement is written. -/
def CommandsServed (s : PoolSys) : PoolAction → Prop
  | .master ok => ok = true → CommandServed s.cpool s.master
  | .slave idx ok => ∀ core ∈ s.cpool.cores[idx]?, core.pc = .acking → ok = true

instance (cpool : XmCorePool) : DecidablePred (CommandServed cpool)
  | .launch (some _) => inferInstanceAs (Decidable (∀ _ ∈ _, _))
  | .launch none | .check _ | .ack _ | .setupFailed | .wait _ => .isTrue trivial

instance (s : PoolSys) : DecidablePred (CommandsServed s)
  | .master _ => inferInstanceAs (Decidable (_ → CommandServed _ _))
  | .slave _ _ => inferInstanceAs (Decidable (∀ _ ∈ _, _))

/-! ## The stages over a run -/

section
variable {cpool : XmCorePool} {s t : PoolSys} {a : PoolAction} {idx start : Nat}

theorem passed_next (h : idx < start) : Passed (xmNextCoreGet cpool true start) idx := by
  intro j hj
  have := (xmNextCoreGet_eq_some hj).1
  omega

theorem not_passed_next (hslave : IsSlave cpool idx) (h : start ≤ idx) :
    ¬ Passed (xmNextCoreGet cpool true start) idx := by
  intro hp
  cases hn : xmNextCoreGet cpool true start with
  | none => exact xmNextCoreGet_eq_none hn idx h hslave
  | some j => exact (xmNextCoreGet_eq_some hn).2.2 idx h (hp j hn) hslave

/-- What holds of the core that a step writes, if it is a slave, and of the other slaves holds of all
slaves. -/
theorem forall_slaves_setCore {core core' : XmCore} {P : Nat → XmCore → Prop}
    (hcore : cpool.cores[idx]? = some core) (he : core'.enabled = core.enabled)
    (hself : IsSlave cpool idx → P idx core')
    (hother : ∀ j c, j ≠ idx → IsSlave cpool j → cpool.cores[j]? = some c → P j c) :
    ∀ j c, IsSlave (cpool.setCore idx core') j → (cpool.setCore idx core').cores[j]? = some c →
      P j c := by
  intro j c hslave hj
  rw [isSlave_setCore hcore he] at hslave
  by_cases hji : j = idx
  · subst hji
    rw [setCore_getElem?_self hcore] at hj
    cases hj
    exact hself hslave
  · rw [setCore_getElem?_ne hji] at hj
    exact hother j c hji hslave hj

theorem PoolSys.Staged.stageAt {pc : MasterPc} (hs : s.Staged) (hpc : s.master = pc) {core : XmCore}
    (hslave : IsSlave s.cpool idx) (hcore : s.cpool.cores[idx]? = some core) :
    StageAt idx core pc := by
  rw [← hpc]
  exact hs idx core hslave hcore

/-- The slaves stay in their stages over a step that is served. -/
theorem PoolSys.Staged.move (h : PoolMove s a t) (hserved : CommandsServed s a) (hs : s.Staged) :
    t.Staged := by
  cases h with
  | checked ok hpc =>
    intro idx core hslave hcore
    exact ⟨fun hp => absurd hp (not_passed_next hslave (Nat.zero_le _)),
      fun _ => hs.stageAt hpc hslave hcore⟩
  | check ok hpc => exact fun idx core hslave hcore => hs.stageAt hpc hslave hcore
  | setupFails ok hpc => exact fun idx core hslave hcore => (hs idx core hslave hcore).cases
  | launched ok hpc =>
    intro idx core hslave hcore
    exact (hs.stageAt hpc hslave hcore).1 fun j hj => by cases hj
  | @launch i c hpc hc hstate =>
    refine forall_slaves_setCore hc rfl (fun hslave => ?_) fun j c' hji hslave hc' => ?_
    · have hfresh : c.Fresh :=
        (hs.stageAt hpc hslave hc).2 fun hp => absurd (hp i rfl) (Nat.lt_irrefl i)
      have htsk : c.tsk ≠ none := by
        have hcommand := hserved rfl
        rw [hpc] at hcommand
        exact hcommand c hc hstate
      exact ⟨fun hlt => absurd hlt (Nat.lt_irrefl i), fun _ => Or.inl (hfresh.commanded htsk),
        fun hlt => absurd hlt (Nat.lt_irrefl i)⟩
    · have hstage := hs.stageAt hpc hslave hc'
      refine ⟨fun hlt => hstage.1 fun k hk => ?_, fun heq => absurd heq hji,
        fun hlt => hstage.2 fun hp => absurd (hp i rfl) (Nat.lt_asymm hlt)⟩
      cases hk
      exact hlt
  | @ack ok i c hpc hc hpipe =>
    refine forall_slaves_setCore hc rfl (fun hslave => ?_) fun j c' hji hslave hc' => ?_
    · have hpassed : Passed (s.next i) i := passed_next (Nat.lt_succ_self i)
      refine ⟨fun _ => ?_, fun hn => absurd hpassed hn⟩
      cases (hs.stageAt hpc hslave hc).2.1 rfl with
      | inl hcommanded => exact absurd hcommanded.pipeSlave2master hpipe
      | inr hlaunched => exact hlaunched.acknowledged
    · have hstage := hs.stageAt hpc hslave hc'
      cases Nat.lt_or_gt_of_ne hji with
      | inl hlt =>
        have hpassed : Passed (s.next i) j := passed_next (Nat.lt_succ_of_lt hlt)
        exact ⟨fun _ => hstage.1 hlt, fun hn => absurd hpassed hn⟩
      | inr hgt =>
        have hnot : ¬ Passed (s.next i) j := not_passed_next hslave hgt
        exact ⟨fun hp => absurd hp hnot, fun _ => hstage.2.2 hgt⟩
  | waiting ok hpc hc hstate => exact fun idx core hslave hcore => hs.stageAt hpc hslave hcore
  | @finished ok i c hpc hc hstate =>
    refine forall_slaves_setCore hc rfl (fun hslave => ?_) fun j c' _ hslave hc' => ?_
    · exact XmCore.Launched.waited (hs.stageAt hpc hslave hc) hstate
    · exact hs.stageAt hpc hslave hc'
  | @slave i ok c c' hi hc hstep =>
    refine forall_slaves_setCore hc (slaveStep_enabled hstep).1 (fun hslave => ?_)
      fun j c'' _ hslave hc'' => hs j c'' hslave hc''
    exact (hs i c hslave hc).step (hserved c hc) hstep

/-! ## The end of the wait -/

/-- The core that the master waits for is a slave. -/
def PoolSys.WaitsForSlave (s : PoolSys) : Prop :=
  ∀ idx, s.master = .wait (some idx) → IsSlave s.cpool idx

theorem PoolSys.WaitsForSlave.move (h : PoolMove s a t) (hs : s.WaitsForSlave) :
    t.WaitsForSlave := by
  intro idx hwait
  rw [h.isSlave_iff]
  cases h with
  | checked ok hpc => cases hwait
  | check ok hpc => cases hwait
  | setupFails ok hpc => cases hwait
  | launched ok hpc => exact (xmNextCoreGet_eq_some (MasterPc.wait.inj hwait)).2.1
  | launch hpc hc hstate => cases hwait
  | ack ok hpc hc hpipe => cases hwait
  | waiting ok hpc hc hstate => exact (xmNextCoreGet_eq_some (MasterPc.wait.inj hwait)).2.1
  | finished ok hpc hc hstate => exact (xmNextCoreGet_eq_some (MasterPc.wait.inj hwait)).2.1
  | slave ok hi hc hstep => exact hs idx hwait

/-- The steps that a slave whose task has returned may still take. -/
def XmCore.steps (core : XmCore) : Nat :=
  match core.pc with
  | .left => 0
  | .reading => 1
  | _ => 2

theorem XmCore.Launched.steps_lt {core core' : XmCore} {ok : Bool} (h : core.Launched)
    (hreturned : core.taskReturned = true) (hstep : slaveStep ok core = some core') :
    core'.taskReturned = true ∧ core'.steps < core.steps := by
  rcases h.leaves hreturned hstep with ⟨hpc, rfl⟩ | ⟨hpc, rfl⟩
  · exact ⟨hreturned, by simp [XmCore.steps, hpc]⟩
  · exact ⟨hreturned, by simp [XmCore.steps, hpc]⟩

/-- The master waits and the tasks of all slaves have returned. -/
structure PoolSys.Ending (s : PoolSys) : Prop where
  waits : ∃ next, s.master = .wait next
  slave : s.WaitsForSlave
  cores : ∀ idx core, IsSlave s.cpool idx → s.cpool.cores[idx]? = some core →
    core.Launched ∧ core.taskReturned = true

def XmCorePool.steps (cpool : XmCorePool) : Nat := (cpool.cores.map XmCore.steps).sum

/-- The steps still to take by the slaves, and the cores still to wait for. -/
def PoolSys.remaining (s : PoolSys) : Nat :=
  s.cpool.steps +
    match s.master with
    | .wait (some idx) => s.cpool.cores.length - idx
    | _ => 0

theorem steps_setCore {core : XmCore} (core' : XmCore) (hcore : cpool.cores[idx]? = some core) :
    (cpool.setCore idx core').steps + core.steps = cpool.steps + core'.steps := by
  obtain ⟨hlt, rfl⟩ := List.getElem?_eq_some_iff.mp hcore
  have hset := List.sum_set (cpool.cores.map XmCore.steps) idx core'.steps
  simp only [List.length_map, hlt, if_true] at hset
  have hsum := List.sum_take_add_sum_drop (cpool.cores.map XmCore.steps) idx
  rw [List.drop_eq_getElem_cons (by simpa using hlt), List.sum_cons, List.getElem_map] at hsum
  simp only [XmCorePool.steps, XmCorePool.setCore, List.map_set]
  omega

@[simp] theorem setCore_length {core' : XmCore} :
    (cpool.setCore idx core').cores.length = cpool.cores.length := by
  simp [XmCorePool.setCore]

theorem PoolSys.remaining_wait {cpool : XmCorePool} (hslave : IsSlave s.cpool idx)
    (hwait : s.master = .wait (some idx)) (hsteps : cpool.steps = s.cpool.steps)
    (hlength : cpool.cores.length = s.cpool.cores.length) :
    PoolSys.remaining ⟨cpool, .wait (s.next idx)⟩ < s.remaining := by
  have hlt := hslave.lt_length
  unfold PoolSys.remaining
  rw [hsteps, hwait, hlength]
  dsimp only
  split
  · next k hk =>
    have := (xmNextCoreGet_eq_some (MasterPc.wait.inj hk)).1
    omega
  · omega

/-- Every step keeps the end in sight and gets nearer to it. -/
theorem PoolSys.Ending.move (h : PoolMove s a t) (hs : s.Ending) :
    t.Ending ∧ t.remaining < s.remaining := by
  obtain ⟨next, hnext⟩ := hs.waits
  have hslave := hs.slave.move h
  cases h with
  | checked ok hpc => cases hpc.symm.trans hnext
  | check ok hpc => cases hpc.symm.trans hnext
  | setupFails ok hpc => exact absurd hnext (hpc next)
  | launched ok hpc => cases hpc.symm.trans hnext
  | launch hpc hc hstate => cases hpc.symm.trans hnext
  | ack ok hpc hc hpipe => cases hpc.symm.trans hnext
  | @waiting ok i c hpc hc hstate =>
    exact ⟨⟨⟨_, rfl⟩, hslave, hs.cores⟩, PoolSys.remaining_wait (hs.slave i hpc) hpc rfl rfl⟩
  | @finished ok i c hpc hc hstate =>
    have hi := hs.slave i hpc
    obtain ⟨hlaunched, hreturned⟩ := hs.cores i c hi hc
    have hsteps := steps_setCore { c with state := .waiting } hc
    have hsame : XmCore.steps { c with state := .waiting } = c.steps := rfl
    refine ⟨⟨⟨_, rfl⟩, hslave, ?_⟩, PoolSys.remaining_wait hi hpc (by omega) setCore_length⟩
    exact forall_slaves_setCore hc rfl (fun _ => ⟨hlaunched.waited hstate, hreturned⟩)
      fun j c' _ => hs.cores j c'
  | @slave i ok c c' hi hc hstep =>
    obtain ⟨hlaunched, hreturned⟩ := hs.cores i c hi hc
    obtain ⟨hreturned', hlt⟩ := hlaunched.steps_lt hreturned hstep
    have hsteps := steps_setCore c' hc
    refine ⟨⟨⟨next, hnext⟩, hslave, ?_⟩, ?_⟩
    · exact forall_slaves_setCore hc (slaveStep_enabled hstep).1
        (fun _ => ⟨hlaunched.step hstep, hreturned'⟩) fun j c'' _ => hs.cores j c''
    · unfold PoolSys.remaining
      rw [setCore_length]
      dsimp only
      omega

/-- The wait returns once the tasks of all slaves have returned. -/
theorem PoolSys.Ending.inevitable (hs : s.Ending) :
    Inevitable poolStep (fun t => t.master = .wait none) s := by
  refine Inevitable.of_measure PoolSys.remaining ?_ ?_ hs
  · intro u hu hwaits
    obtain ⟨next, hnext⟩ := hu.waits
    cases next with
    | none => exact absurd hnext hwaits
    | some i =>
      obtain ⟨c, hc⟩ := (hu.slave i hnext).getElem?
      obtain ⟨hlaunched, hreturned⟩ := hu.cores i c (hu.slave i hnext) hc
      cases hstate : c.state with
      | waiting => exact ⟨.master true, by simp [poolStep, masterStep, hnext, hc, masterAt, hstate]⟩
      | finished => exact ⟨.master true, by simp [poolStep, masterStep, hnext, hc, masterAt, hstate]⟩
      | running =>
        -- the master spins, and the slave is about to set its state
        have hpc := hlaunched.returned hreturned hstate
        have hskip : coreSkipped u.cpool true i = false := hu.slave i hnext
        exact ⟨.slave i true, by simp [poolStep, hskip, hc, slaveStep, hpc]⟩
  · exact fun u a t ht hu _ => hu.move (poolStep_move ht)

end

/-! ## The pool -/

/-- The slaves are in their stages, and the master waits for a slave. -/
structure PoolSys.Ordered (s : PoolSys) : Prop where
  staged : s.Staged
  slave : s.WaitsForSlave

theorem PoolSys.Ordered.waitingEnds {s : PoolSys} (hs : s.Ordered) : WaitingEnds s where
  settled idx core hslave hcore := (hs.staged idx core hslave hcore).settled
  returns next hnext hreturned := by
    have hcores : ∀ idx core, IsSlave s.cpool idx → s.cpool.cores[idx]? = some core →
        core.Launched ∧ core.taskReturned = true := by
      intro idx core hslave hcore
      have hlaunched := hs.staged idx core hslave hcore
      rw [hnext] at hlaunched
      have htsk : core.tsk ≠ none := XmCore.Launched.tsk hlaunched
      exact ⟨hlaunched, hreturned idx core hslave hcore htsk⟩
    have hending : s.Ending := ⟨⟨next, hnext⟩, hs.slave, hcores⟩
    exact hending.inevitable

/-- No command was sent to any core. -/
def XmCorePool.Fresh (cpool : XmCorePool) : Prop := ∀ core ∈ cpool.cores, core.Fresh

theorem xmCorePoolCreate_fresh {sysCoreCount : Nat} {coremask : List Char} {cpool : XmCorePool}
    (h : xmCorePoolCreate sysCoreCount coremask = some cpool) : cpool.Fresh := by
  unfold xmCorePoolCreate at h
  split at h
  · cases h
  · next enabled _ =>
    obtain ⟨master, _, rfl⟩ := Option.map_eq_some_iff.mp h
    intro core hcore
    obtain ⟨e, _, rfl⟩ := List.mem_map.mp hcore
    exact ⟨Or.inl rfl, rfl, rfl, rfl, rfl⟩

theorem XmCorePool.Fresh.bindTask {cpool : XmCorePool} (h : cpool.Fresh) (tsk : Nat) :
    (xmCorePoolBindTask cpool tsk).1.Fresh := by
  unfold xmCorePoolBindTask
  split
  · exact h
  · split
    · exact h
    · next idx _ core hcore =>
      intro c hc
      have hfresh := h core (List.mem_of_getElem? hcore)
      rcases List.mem_or_eq_of_mem_set hc with hmem | rfl
      · exact h c hmem
      · exact ⟨hfresh.pc, hfresh.state, hfresh.pipeMaster2slave, hfresh.pipeSlave2master,
          hfresh.taskReturned⟩

theorem XmCorePool.Fresh.bindTasks {cpool : XmCorePool} (h : cpool.Fresh) (tsks : List Nat) :
    (bindTasks cpool tsks).Fresh := by
  induction tsks generalizing cpool with
  | nil => exact h
  | cons tsk tsks ih => exact ih (h.bindTask tsk)

theorem poolStart_ordered {cpool : XmCorePool} (h : cpool.Fresh) : (poolStart cpool).Ordered where
  staged _ core _ hcore := h core (List.mem_of_getElem? hcore)
  slave _ hwait := by cases hwait

/-- In a run in which written commands go to cores with a task and acknowledgements are written, the slaves
are not at work once they have left or are back at the read, and the wait ends. -/
theorem poolStates_waitingEnds {sysCoreCount : Nat} {coremask : List Char} {cpool : XmCorePool}
    (hc : xmCorePoolCreate sysCoreCount coremask = some cpool) (tsks : List Nat)
    {acts : List PoolAction}
    (hacts : Meets poolStep CommandsServed (poolStart (bindTasks cpool tsks)) acts) :
    ∀ s ∈ states poolStep (poolStart (bindTasks cpool tsks)) acts, WaitingEnds s := by
  have hstart := poolStart_ordered ((xmCorePoolCreate_fresh hc).bindTasks tsks)
  have hordered : ∀ s ∈ states poolStep (poolStart (bindTasks cpool tsks)) acts, s.Ordered := by
    refine states_of_meets (fun s a t ht hserved hs => ?_) hstart hacts
    exact ⟨hs.staged.move (poolStep_move ht) hserved, hs.slave.move (poolStep_move ht)⟩
  exact fun s hs => (hordered s hs).waitingEnds

/-! ## A pool of two cores -/

/-- The slave runs its task, and the master waits for it. -/
def servedRun : List PoolAction :=
  [.slave 1 true, .master true, .master true, .master true, .slave 1 true, .slave 1 true,
    .slave 1 true, .master true, .master true, .slave 1 true, .slave 1 true, .slave 1 true, .master true]

def twoCores : XmCorePool := ⟨[coreCreate true, coreCreate true], 0⟩

/-- The pool at the end of the run. -/
def served : PoolSys where
  cpool := ⟨[coreCreate true,
    { coreCreate true with tsk := some 7, pc := .reading, taskReturned := true }], 0⟩
  master := .wait none

theorem twoCores_create : xmCorePoolCreate 2 "3".toList = some twoCores := by decide

theorem poolStates_waitingEnds_served : WaitingEnds served := by
  have hserved : Meets poolStep CommandsServed (poolStart (bindTasks twoCores [7])) servedRun := by
    decide +kernel
  exact poolStates_waitingEnds twoCores_create [7] hserved served (by decide +kernel)

/-- The slave found no task and has left, and the master waits for it. -/
def spinning : PoolSys where
  cpool := ⟨[coreCreate true, { coreCreate true with state := .running, pc := .left }], 0⟩
  master := .wait (some 1)

/-- Without a task for the slave, the pool gets to where nothing happens any more. -/
theorem poolStates_spinning : xmCorePoolCreate 2 "3".toList = some twoCores ∧
    spinning ∈ states poolStep (poolStart (bindTasks twoCores [])) (servedRun.take 10) ∧
    (∀ a, poolStep spinning a = none) ∧ ¬ WaitingEnds spinning := by
  refine ⟨twoCores_create, by decide +kernel, ?_, fun h => ?_⟩
  · rintro (ok | ⟨idx, ok⟩)
    · rfl
    · match idx with
      | 0 => rfl
      | 1 => rfl
      | idx + 2 => simp [poolStep, spinning, coreSkipped]
  · have hsettled := h.settled 1 _ (by rfl) rfl (Or.inl rfl)
    simp at hsettled

end Xmap.Thread
