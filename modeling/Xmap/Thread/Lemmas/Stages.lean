import Xmap.Thread.Lemmas.CorePool

/-!
# Stages of a slave

A slave has not been told to run its task, has been told and has not acknowledged it, or has acknowledged it.
Where the master stands says which.
-/

namespace Xmap.Thread

open Xmap.Lib

/-- A slave that no command was sent to. -/
structure XmCore.Fresh (core : XmCore) : Prop where
  pc : core.pc = .start ∨ core.pc = .reading ∨ core.pc = .left
  state : core.state = .waiting
  pipeMaster2slave : core.pipeMaster2slave = 0
  pipeSlave2master : core.pipeSlave2master = 0
  taskReturned : core.taskReturned = false

/-- A slave with a command that it has not acknowledged. -/
structure XmCore.Commanded (core : XmCore) : Prop where
  pc : ((core.pc = .start ∨ core.pc = .reading ∨ core.pc = .left) ∧ core.state = .waiting ∧
      core.pipeMaster2slave = 1) ∨
    (core.pc = .commanded ∧ core.state = .waiting ∧ core.pipeMaster2slave = 0) ∨
    (core.pc = .acking ∧ core.state = .running ∧ core.pipeMaster2slave = 0)
  tsk : core.tsk ≠ none
  pipeSlave2master : core.pipeSlave2master = 0
  taskReturned : core.taskReturned = false

/-- A slave that has acknowledged its command. -/
structure XmCore.Launched (core : XmCore) : Prop where
  pc : ((core.pc = .acked ∨ core.pc = .inTask) ∧ core.state = .running ∧ core.taskReturned = false) ∨
    (core.pc = .returned ∧ core.state = .running ∧ core.taskReturned = true) ∨
    ((core.pc = .reading ∨ core.pc = .left) ∧ core.state ≠ .running ∧ core.taskReturned = true)
  tsk : core.tsk ≠ none
  pipeMaster2slave : core.pipeMaster2slave = 0

/-- A slave that left its loop, or is at the read of a command, before its task or behind it, is not at
work. -/
def XmCore.Settled (core : XmCore) : Prop :=
  core.pc = .left ∨ core.pc = .reading → core.state = .finished ∨ core.state = .waiting

section
variable {core core' : XmCore} {ok : Bool}

theorem XmCore.Fresh.settled (h : core.Fresh) : core.Settled := fun _ => Or.inr h.state

theorem XmCore.Commanded.settled (h : core.Commanded) : core.Settled := by
  intro hleft
  rcases h.pc with ⟨_, hstate, _⟩ | ⟨_, hstate, _⟩ | ⟨hpc, _, _⟩
  · exact Or.inr hstate
  · exact Or.inr hstate
  · simp [hpc] at hleft

theorem XmCore.Launched.settled (h : core.Launched) : core.Settled := by
  intro hleft
  rcases h.pc with ⟨hpc, _, _⟩ | ⟨hpc, _, _⟩ | ⟨_, hstate, _⟩
  · rcases hpc with hpc | hpc <;> simp [hpc] at hleft
  · simp [hpc] at hleft
  · cases hcore : core.state with
    | waiting => exact Or.inr rfl
    | running => exact absurd hcore hstate
    | finished => exact Or.inl rfl

/-! ## Steps of the slave -/

theorem XmCore.Fresh.step (h : core.Fresh) (hstep : slaveStep ok core = some core') :
    core'.Fresh := by
  obtain ⟨hpc, hstate, hcommand, hack, hreturned⟩ := h
  rcases hpc with hpc | hpc | hpc
  · simp only [slaveStep, hpc] at hstep
    cases hstep
    refine ⟨?_, hstate, hcommand, hack, hreturned⟩
    cases ok <;> simp
  · simp only [slaveStep, hpc, hcommand] at hstep
    split at hstep
    · cases hstep
      exact ⟨Or.inr (Or.inr rfl), hstate, rfl, hack, hreturned⟩
    · cases hstep
  · simp only [slaveStep, hpc] at hstep
    cases hstep

theorem XmCore.Commanded.step (h : core.Commanded) (hack : core.pc = .acking → ok = true)
    (hstep : slaveStep ok core = some core') : core'.Commanded ∨ core'.Launched := by
  obtain ⟨hpc, htsk, hpipe, hreturned⟩ := h
  rcases hpc with ⟨hpc, hstate, hcommand⟩ | ⟨hpc, hstate, hcommand⟩ | ⟨hpc, hstate, hcommand⟩
  · rcases hpc with hpc | hpc | hpc
    · simp only [slaveStep, hpc] at hstep
      cases hstep
      refine Or.inl ⟨Or.inl ⟨?_, hstate, hcommand⟩, htsk, hpipe, hreturned⟩
      cases ok <;> simp
    · simp only [slaveStep, hpc, hcommand] at hstep
      split at hstep
      · cases hstep
        exact Or.inl ⟨Or.inl ⟨Or.inr (Or.inr rfl), hstate, rfl⟩, htsk, hpipe, hreturned⟩
      · cases hstep
        exact Or.inl ⟨Or.inr (Or.inl ⟨rfl, hstate, rfl⟩), htsk, hpipe, hreturned⟩
    · simp only [slaveStep, hpc] at hstep
      cases hstep
  · simp only [slaveStep, hpc] at hstep
    cases hstep
    exact Or.inl ⟨Or.inr (Or.inr ⟨rfl, rfl, hcommand⟩), htsk, hpipe, hreturned⟩
  · simp only [slaveStep, hpc, hack hpc] at hstep
    cases hstep
    exact Or.inr ⟨Or.inl ⟨Or.inl rfl, hstate, hreturned⟩, htsk, hcommand⟩

theorem XmCore.Launched.step (h : core.Launched) (hstep : slaveStep ok core = some core') :
    core'.Launched := by
  obtain ⟨hpc, htsk, hcommand⟩ := h
  rcases hpc with ⟨hpc, hstate, hreturned⟩ | ⟨hpc, hstate, hreturned⟩ | ⟨hpc, hstate, hreturned⟩
  · rcases hpc with hpc | hpc
    · simp only [slaveStep, hpc, htsk] at hstep
      cases hstep
      exact ⟨Or.inl ⟨Or.inr rfl, hstate, hreturned⟩, htsk, hcommand⟩
    · simp only [slaveStep, hpc] at hstep
      cases hstep
      exact ⟨Or.inr (Or.inl ⟨rfl, hstate, rfl⟩), htsk, hcommand⟩
  · simp only [slaveStep, hpc] at hstep
    cases hstep
    exact ⟨Or.inr (Or.inr ⟨Or.inl rfl, by simp, hreturned⟩), htsk, hcommand⟩
  · rcases hpc with hpc | hpc
    · simp only [slaveStep, hpc, hcommand] at hstep
      split at hstep
      · cases hstep
        exact ⟨Or.inr (Or.inr ⟨Or.inr rfl, hstate, hreturned⟩), htsk, rfl⟩
      · cases hstep
    · simp only [slaveStep, hpc] at hstep
      cases hstep

/-- A slave whose task has returned can only set its state, and leave where its read fails. -/
theorem XmCore.Launched.leaves (h : core.Launched) (hreturned : core.taskReturned = true)
    (hstep : slaveStep ok core = some core') :
    (core.pc = .returned ∧ core' = { core with state := .finished, pc := .reading }) ∨
      (core.pc = .reading ∧ core' = { core with pc := .left }) := by
  rcases h.pc with ⟨_, _, hworking⟩ | ⟨hpc, _, _⟩ | ⟨hpc, _, _⟩
  · rw [hreturned] at hworking
    cases hworking
  · simp only [slaveStep, hpc] at hstep
    cases hstep
    exact Or.inl ⟨hpc, rfl⟩
  · rcases hpc with hpc | hpc
    · refine Or.inr ⟨hpc, ?_⟩
      simp only [slaveStep, hpc, h.pipeMaster2slave] at hstep
      split at hstep
      · cases hstep
        rw [← h.pipeMaster2slave]
      · cases hstep
    · simp only [slaveStep, hpc] at hstep
      cases hstep

/-! ## Steps of the master -/

theorem XmCore.Fresh.commanded (h : core.Fresh) (htsk : core.tsk ≠ none) :
    ({ core with pipeMaster2slave := core.pipeMaster2slave + 1 } : XmCore).Commanded :=
  ⟨Or.inl ⟨h.pc, h.state, by simp [h.pipeMaster2slave]⟩, htsk, h.pipeSlave2master, h.taskReturned⟩

theorem XmCore.Launched.acknowledged (h : core.Launched) :
    ({ core with pipeSlave2master := core.pipeSlave2master - 1 } : XmCore).Launched :=
  ⟨h.pc, h.tsk, h.pipeMaster2slave⟩

/-- `_wait_core` has seen the slave at its end. -/
theorem XmCore.Launched.waited (h : core.Launched) (hstate : core.state = .finished) :
    ({ core with state := .waiting } : XmCore).Launched := by
  obtain ⟨hpc, htsk, hcommand⟩ := h
  rcases hpc with ⟨_, hrunning, _⟩ | ⟨_, hrunning, _⟩ | ⟨hpc, _, hreturned⟩
  · rw [hstate] at hrunning
    cases hrunning
  · rw [hstate] at hrunning
    cases hrunning
  · exact ⟨Or.inr (Or.inr ⟨hpc, by simp, hreturned⟩), htsk, hcommand⟩

/-- A slave at work whose task has returned is about to set its state. -/
theorem XmCore.Launched.returned (h : core.Launched) (hreturned : core.taskReturned = true)
    (hstate : core.state = .running) : core.pc = .returned := by
  rcases h.pc with ⟨_, _, hworking⟩ | ⟨hpc, _, _⟩ | ⟨_, hidle, _⟩
  · rw [hreturned] at hworking
    cases hworking
  · exact hpc
  · exact absurd hstate hidle

end

/-! ## The stages -/

/-- The loop of the master has gone past the core. -/
def Passed (core : Option Nat) (idx : Nat) : Prop := ∀ j, core = some j → idx < j

/-- The stage that a slave is in where the master stands there. -/
def StageAt (idx : Nat) (core : XmCore) : MasterPc → Prop
  | .check _ => core.Fresh
  | .launch next => (Passed next idx → core.Launched) ∧ (¬ Passed next idx → core.Fresh)
  | .ack j => (idx < j → core.Launched) ∧ (idx = j → core.Commanded ∨ core.Launched) ∧
      (j < idx → core.Fresh)
  | .setupFailed => core.Fresh ∨ core.Commanded ∨ core.Launched
  | .wait _ => core.Launched

/-- All slaves are in their stages. -/
def PoolSys.Staged (s : PoolSys) : Prop :=
  ∀ idx core, IsSlave s.cpool idx → s.cpool.cores[idx]? = some core → StageAt idx core s.master

theorem StageAt.cases {idx : Nat} {core : XmCore} {pc : MasterPc} (h : StageAt idx core pc) :
    core.Fresh ∨ core.Commanded ∨ core.Launched := by
  cases pc with
  | check next => exact Or.inl h
  | launch next =>
    by_cases hp : Passed next idx
    · exact Or.inr (Or.inr (h.1 hp))
    · exact Or.inl (h.2 hp)
  | ack j =>
    rcases Nat.lt_trichotomy idx j with hlt | heq | hgt
    · exact Or.inr (Or.inr (h.1 hlt))
    · exact Or.inr (h.2.1 heq)
    · exact Or.inl (h.2.2 hgt)
  | setupFailed => exact h
  | wait next => exact Or.inr (Or.inr h)

theorem StageAt.settled {idx : Nat} {core : XmCore} {pc : MasterPc} (h : StageAt idx core pc) :
    core.Settled := by
  rcases h.cases with hcore | hcore | hcore
  · exact hcore.settled
  · exact hcore.settled
  · exact hcore.settled

theorem StageAt.step {idx : Nat} {core core' : XmCore} {pc : MasterPc} {ok : Bool}
    (h : StageAt idx core pc) (hack : core.pc = .acking → ok = true)
    (hstep : slaveStep ok core = some core') : StageAt idx core' pc := by
  cases pc with
  | check next => exact XmCore.Fresh.step h hstep
  | launch next => exact ⟨fun hp => (h.1 hp).step hstep, fun hp => (h.2 hp).step hstep⟩
  | ack j =>
    refine ⟨fun hlt => (h.1 hlt).step hstep, fun heq => ?_, fun hgt => (h.2.2 hgt).step hstep⟩
    rcases h.2.1 heq with hcore | hcore
    · exact hcore.step hack hstep
    · exact Or.inr (hcore.step hstep)
  | setupFailed =>
    rcases h with hcore | hcore | hcore
    · exact Or.inl (hcore.step hstep)
    · exact Or.inr (hcore.step hack hstep)
    · exact Or.inr (Or.inr (hcore.step hstep))
  | wait next => exact XmCore.Launched.step h hstep

end Xmap.Thread
