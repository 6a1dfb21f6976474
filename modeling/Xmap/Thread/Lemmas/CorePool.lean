import Xmap.Thread.CorePool

/-!
# Steps of the pool

What a step of the pool can be, and which slaves the loops of the master come to.
-/

namespace Xmap.Thread

open Xmap.Lib

def IsSlave (cpool : XmCorePool) (idx : Nat) : Prop := coreSkipped cpool true idx = false

/-! ## Cores in turn -/

section
variable {cpool : XmCorePool} {idx start : Nat} {core core' : XmCore}

theorem IsSlave.getElem? (h : IsSlave cpool idx) : ∃ core, cpool.cores[idx]? = some core := by
  cases hcore : cpool.cores[idx]? with
  | none => simp [IsSlave, coreSkipped, hcore] at h
  | some core => exact ⟨core, rfl⟩

theorem IsSlave.lt_length (h : IsSlave cpool idx) : idx < cpool.cores.length := by
  obtain ⟨core, hcore⟩ := h.getElem?
  exact (List.getElem?_eq_some_iff.mp hcore).1

theorem xmNextCoreGet_eq_some (h : xmNextCoreGet cpool true start = some idx) :
    start ≤ idx ∧ IsSlave cpool idx ∧ ∀ j, start ≤ j → j < idx → ¬ IsSlave cpool j := by
  obtain ⟨hp, hmem, hbefore⟩ := List.find?_range'_eq_some.mp h
  refine ⟨(List.mem_range'_1.mp hmem).1, by simpa [IsSlave] using hp, fun j hj hlt => ?_⟩
  simpa [IsSlave] using hbefore j hj hlt

theorem xmNextCoreGet_eq_none (h : xmNextCoreGet cpool true start = none) :
    ∀ j, start ≤ j → ¬ IsSlave cpool j := by
  intro j hj hslave
  have := List.find?_range'_eq_none.mp h j hj (by have := hslave.lt_length; omega)
  simp only [Bool.not_not] at this
  rw [IsSlave, this] at hslave
  cases hslave

@[simp] theorem setCore_masterCore : (cpool.setCore idx core').masterCore = cpool.masterCore := rfl

theorem setCore_getElem?_self (h : cpool.cores[idx]? = some core) :
    (cpool.setCore idx core').cores[idx]? = some core' := by
  have hlt := (List.getElem?_eq_some_iff.mp h).1
  simp [XmCorePool.setCore, hlt]

theorem setCore_getElem?_ne {j : Nat} (h : j ≠ idx) :
    (cpool.setCore idx core').cores[j]? = cpool.cores[j]? := by
  simp [XmCorePool.setCore, List.getElem?_set_ne (Ne.symm h)]

theorem isSlave_setCore (h : cpool.cores[idx]? = some core) (he : core'.enabled = core.enabled)
    (j : Nat) : IsSlave (cpool.setCore idx core') j ↔ IsSlave cpool j := by
  by_cases hj : j = idx
  · subst hj
    simp [IsSlave, coreSkipped, setCore_getElem?_self h, h, he]
  · simp [IsSlave, coreSkipped, setCore_getElem?_ne hj]

end

/-! ## The ways in which the pool takes a step -/

inductive PoolMove (s : PoolSys) : PoolAction → PoolSys → Prop where
  | checked (ok : Bool) (h : s.master = .check none) :
      PoolMove s (.master ok) { s with master := .launch (xmNextCoreGet s.cpool true 0) }
  | check (ok : Bool) {idx : Nat} (h : s.master = .check (some idx)) :
      PoolMove s (.master ok) { s with master := .check (s.next idx) }
  | setupFails (ok : Bool) (h : ∀ core, s.master ≠ .wait core) :
      PoolMove s (.master ok) { s with master := .setupFailed }
  | launched (ok : Bool) (h : s.master = .launch none) :
      PoolMove s (.master ok) { s with master := .wait (xmNextCoreGet s.cpool true 0) }
  | launch {idx : Nat} {core : XmCore} (h : s.master = .launch (some idx))
      (hcore : s.cpool.cores[idx]? = some core) (hstate : core.state = .waiting) :
      PoolMove s (.master true)
        { cpool := s.cpool.setCore idx { core with pipeMaster2slave := core.pipeMaster2slave + 1 }
          master := .ack idx }
  | ack (ok : Bool) {idx : Nat} {core : XmCore} (h : s.master = .ack idx)
      (hcore : s.cpool.cores[idx]? = some core) (hpipe : core.pipeSlave2master ≠ 0) :
      PoolMove s (.master ok)
        { cpool := s.cpool.setCore idx { core with pipeSlave2master := core.pipeSlave2master - 1 }
          master := .launch (s.next idx) }
  | waiting (ok : Bool) {idx : Nat} {core : XmCore} (h : s.master = .wait (some idx))
      (hcore : s.cpool.cores[idx]? = some core) (hstate : core.state = .waiting) :
      PoolMove s (.master ok) { s with master := .wait (s.next idx) }
  | finished (ok : Bool) {idx : Nat} {core : XmCore} (h : s.master = .wait (some idx))
      (hcore : s.cpool.cores[idx]? = some core) (hstate : core.state = .finished) :
      PoolMove s (.master ok)
        { cpool := s.cpool.setCore idx { core with state := .waiting }
          master := .wait (s.next idx) }
  | slave {idx : Nat} (ok : Bool) {core core' : XmCore} (hslave : IsSlave s.cpool idx)
      (hcore : s.cpool.cores[idx]? = some core) (hstep : slaveStep ok core = some core') :
      PoolMove s (.slave idx ok) { s with cpool := s.cpool.setCore idx core' }

section
variable {s t : PoolSys} {a : PoolAction} {ok : Bool}

theorem masterAt_move {idx : Nat} {core : XmCore} (hcore : s.cpool.cores[idx]? = some core)
    (hpc : s.master = .check (some idx) ∨ s.master = .launch (some idx) ∨ s.master = .ack idx ∨
      s.master = .wait (some idx))
    (h : masterAt ok s idx core = some t) : PoolMove s (.master ok) t := by
  rcases hpc with hpc | hpc | hpc | hpc
  · simp only [masterAt, hpc] at h
    split at h
    · cases h
      exact .setupFails ok (by simp [hpc])
    · cases h
      exact .check ok hpc
  · simp only [masterAt, hpc] at h
    split at h
    · cases h
      exact .setupFails ok (by simp [hpc])
    · next hsent =>
      obtain ⟨hstate, rfl⟩ : core.state = .waiting ∧ ok = true := by simpa using hsent
      cases h
      exact .launch hpc hcore hstate
  · simp only [masterAt, hpc] at h
    split at h
    · cases h
      exact .setupFails ok (by simp [hpc])
    · split at h
      · cases h
      · next hpipe =>
        cases h
        exact .ack ok hpc hcore hpipe
  · simp only [masterAt, hpc] at h
    split at h
    · next hstate =>
      cases h
      exact .waiting ok hpc hcore hstate
    · next hstate =>
      cases h
      exact .finished ok hpc hcore hstate
    · cases h

theorem poolStep_move (h : poolStep s a = some t) : PoolMove s a t := by
  cases a with
  | master ok =>
    simp only [poolStep, masterStep] at h
    split at h
    · next hpc =>
      cases h
      exact .checked ok hpc
    · next hpc =>
      cases h
      exact .launched ok hpc
    · cases h
    · cases h
    all_goals
      next hpc =>
      obtain ⟨core, hcore, hat⟩ := Option.bind_eq_some_iff.mp h
      exact masterAt_move hcore (by simp [hpc]) hat
  | slave idx ok =>
    simp only [poolStep] at h
    split at h
    · cases h
    · next hskip =>
      obtain ⟨core, hcore, hmap⟩ := Option.bind_eq_some_iff.mp h
      obtain ⟨core', hstep, rfl⟩ := Option.map_eq_some_iff.mp hmap
      exact .slave ok (Bool.eq_false_iff.mpr hskip) hcore hstep

theorem slaveStep_enabled {core core' : XmCore} (h : slaveStep ok core = some core') :
    core'.enabled = core.enabled ∧ core'.tsk = core.tsk := by
  unfold slaveStep at h
  split at h
  all_goals try split at h
  all_goals try split at h
  all_goals first
    | (cases h; exact ⟨rfl, rfl⟩)
    | cases h

/-- No step moves a core between the master and the slaves. -/
theorem PoolMove.isSlave_iff (h : PoolMove s a t) (idx : Nat) :
    IsSlave t.cpool idx ↔ IsSlave s.cpool idx := by
  cases h with
  | checked _ h => exact Iff.rfl
  | check _ h => exact Iff.rfl
  | setupFails _ h => exact Iff.rfl
  | launched _ h => exact Iff.rfl
  | launch h hcore hstate => exact isSlave_setCore hcore (by rfl) idx
  | ack _ h hcore hpipe => exact isSlave_setCore hcore (by rfl) idx
  | waiting _ h hcore hstate => exact Iff.rfl
  | finished _ h hcore hstate => exact isSlave_setCore hcore (by rfl) idx
  | slave _ hslave hcore hstep => exact isSlave_setCore hcore (slaveStep_enabled hstep).1 idx

end

end Xmap.Thread
