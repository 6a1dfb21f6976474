import Xmap.Shm.StreamTheorems
import Xmap.Task.Lemmas.Recv
import Xmap.Task.Lemmas.Store

/-!
# Theorems on what the receiver leaves in the ring

At the end of a run every accepted record is committed exactly when a flush was due at or after each store
of one: the receiver does not flush when it ends.
-/

namespace Xmap.Task

open Xmap.Lib Xmap.Probe Xmap.Shm

/-! ## The stores of a run -/

section
variable (context : RecvContext) (conf : ShmConf)

/-- The addresses seen after a packet. -/
def seenAfter (seen : List UInt32) (d : Delivery) : List UInt32 :=
  match validatePacket context d.toFrame with
  | none => seen
  | some (srcIp, _) => srcIp :: seen

/-- The store of a packet, if it is stored: its time in seconds, and whether its record can be put. -/
def storeCall (seen : List UInt32) (d : Delivery) : Option (UInt64 × Bool) :=
  match validatePacket context d.toFrame with
  | none => none
  | some (srcIp, validation) =>
    if srcIp ∈ seen ∧ context.filterDuplicates = true then none
    else some (d.timems / 1000, !decide (TooLarge conf (packedRecord context d.toFrame validation)))

def storeCalls : List UInt32 → List Delivery → List (UInt64 × Bool)
  | _, [] => []
  | seen, d :: ds => (storeCall context conf seen d).toList ++ storeCalls (seenAfter context seen d) ds

theorem storeCalls_append (seen : List UInt32) (ds es : List Delivery) :
    storeCalls context conf seen (ds ++ es) =
      storeCalls context conf seen ds ++ storeCalls context conf (ds.foldl (seenAfter context) seen) es := by
  induction ds generalizing seen with
  | nil => rfl
  | cons d ds ih => simp only [List.cons_append, storeCalls, List.foldl_cons, ih, List.append_assoc]

end

/-! ## Runs -/

/-- The receiver after the given stores, with the addresses it has seen. -/
structure RecvSys.After (conf : ShmConf) (timeout start : UInt64) (calls : List (UInt64 × Bool))
    (seen : List UInt32) (s : RecvSys) : Prop where
  store : s.store.After conf timeout start calls
  seen_iff : ∀ ip, xmPbmCheck s.task.seen (ntohl ip) = true ↔ ip ∈ seen

section
variable {context : RecvContext} {conf : ShmConf} {timeout start : UInt64}
  {calls : List (UInt64 × Bool)} {seen : List UInt32} {s s' : RecvSys}

theorem mem_seenAfter {d : Delivery} {ip : UInt32} :
    ip ∈ seenAfter context seen d ↔ address context d.toFrame = some ip ∨ ip ∈ seen := by
  cases hv : validatePacket context d.toFrame with
  | none => simp [seenAfter, address, hv]
  | some v => simp [seenAfter, address, hv, eq_comm]

theorem RecvSys.After.handle (h : s.After conf timeout start calls seen) {d : Delivery}
    (hs : handle context s d = some s') :
    s'.After conf timeout start (calls ++ (storeCall context conf seen d).toList)
      (seenAfter context seen d) := by
  have hseen : ∀ ip, xmPbmCheck (recvPacketHandle context s.task d.toFrame).1.seen (ntohl ip) = true ↔
      ip ∈ seenAfter context seen d := by
    intro ip
    rw [recvPacketHandle_seen, h.seen_iff, mem_seenAfter]
  unfold Task.handle at hs
  cases hv : validatePacket context d.toFrame with
  | none =>
    rw [recvPacketHandle_invalid hv] at hs hseen
    cases hs
    rw [storeCall, hv, Option.toList_none, List.append_nil]
    exact ⟨h.store, hseen⟩
  | some v =>
    obtain ⟨srcIp, validation⟩ := v
    by_cases hdrop : srcIp ∈ seen ∧ context.filterDuplicates = true
    · rw [recvPacketHandle_repeat hv ((h.seen_iff srcIp).mpr hdrop.1), if_pos hdrop.2] at hs hseen
      cases hs
      simp only [storeCall, hv, if_pos hdrop, Option.toList_none, List.append_nil]
      exact ⟨h.store, hseen⟩
    · rw [recvPacketHandle_stored hv (by rwa [h.seen_iff])] at hs
      obtain ⟨store, hstore, rfl⟩ := Option.map_eq_some_iff.mp hs
      simp only [storeCall, hv, if_neg hdrop, Option.toList_some]
      exact ⟨h.store.storeFlush hstore, hseen⟩

theorem RecvSys.After.receive (h : s.After conf timeout start calls seen) {ds : List Delivery}
    (hs : receive context ds s = some s') :
    s'.After conf timeout start (calls ++ storeCalls context conf seen ds)
      (ds.foldl (seenAfter context) seen) := by
  induction ds generalizing s calls seen with
  | nil =>
    cases hs
    rw [storeCalls, List.append_nil]
    exact h
  | cons d ds ih =>
    simp only [Task.receive] at hs
    split at hs
    · cases hs
    · next t ht =>
      have := ih (h.handle ht) hs
      rwa [List.append_assoc] at this

theorem RecvSys.After.recvLoop (h : s.After conf timeout start calls seen) {rounds : List Round}
    (hs : recvLoop context rounds s = some (s', [])) :
    s'.After conf timeout start
      (calls ++ storeCalls context conf seen (rounds.flatMap Round.deliveries))
      ((rounds.flatMap Round.deliveries).foldl (seenAfter context) seen) := by
  induction rounds generalizing s calls seen with
  | nil => cases hs
  | cons r rounds ih =>
    rw [List.flatMap_cons, storeCalls_append, List.foldl_append, ← List.append_assoc]
    simp only [Task.recvLoop] at hs
    split at hs
    · cases hs
    · next t ht =>
      have hr := h.receive ht
      -- the loop ends here with no rounds left, or goes on
      split at hs
      · cases hs
        simpa [storeCalls] using hr
      · split at hs
        · cases hs
          simpa [storeCalls] using hr
        · exact ih hr hs

end

theorem xmRecvTaskCreate_after (conf : ShmConf) (mem : Mem) (timems timeout : UInt64) :
    (xmRecvTaskCreate conf mem timems timeout).After conf timeout (timems / 1000) [] [] where
  store :=
    { tight := conf.start_tight mem (lt_of_lt_of_le (by decide)
        (conf.header_le.trans conf.fentrySize_le))
      flushTimeout := rfl
      lastTime := rfl
      allCommitted := iff_of_true rfl flushesAll_nil }
  seen_iff ip := by
    rw [xmPbmCheck_iff]
    simp [xmRecvTaskCreate, xmPbmInit_bits]

/-- Once the task has exited, every record whose put returned 0 is in a committed chunk if and only if a
flush was due at or after the store of each record that could be put. -/
theorem recvTask_allCommitted_iff (context : RecvContext) (conf : ShmConf) (mem : Mem)
    (timems timeout : UInt64) {rounds : List Round} {s : RecvSys}
    (hs : recvTask context rounds (xmRecvTaskCreate conf mem timems timeout) = some (s, [])) :
    s.store.shm.AllCommitted ↔ FlushesAll (FlushDue timeout) (timems / 1000)
      (storeCalls context conf [] (rounds.flatMap Round.deliveries)) := by
  simp only [recvTask, recvTaskRun, recvTaskExit, Option.map_eq_some_iff, Prod.mk.injEq] at hs
  obtain ⟨_, ⟨⟨u, left⟩, hloop, rfl⟩, rfl, rfl⟩ := hs
  exact ((xmRecvTaskCreate_after conf mem timems timeout).recvLoop hloop).store.allCommitted

/-- The receiver of a scan, with the ring in memory of 0 and a flush timeout of a minute. -/
def idleReceiver : RecvSys := xmRecvTaskCreate pageConf zeroMem 0 60

/-- A round in which a host answers. -/
def answerRound : Round :=
  ⟨[⟨frameOf (tcpAnswer 2 (TH_SYN ||| TH_ACK)), [0], 0, 0⟩], false, 0, 0⟩

/-- A scan for one result returns after the answer, with a record that is accepted and not committed. -/
theorem recvTask_answer : ∃ s, recvTask (portScan 1) [answerRound] idleReceiver = some (s, []) ∧
    s.store.shm.accepted.length = 1 ∧ s.store.shm.committed = 0 := by
  have hrun : ((recvTask (portScan 1) [answerRound] idleReceiver).map fun p =>
      (p.2.length, p.1.store.shm.accepted.length, p.1.store.shm.committed)) = some (0, 1, 0) := by
    decide +kernel
  simp only [Option.map_eq_some_iff, Prod.mk.injEq, List.length_eq_zero_iff] at hrun
  obtain ⟨⟨s, rounds⟩, hs, hrounds, haccepted, hcommitted⟩ := hrun
  cases hrounds
  exact ⟨s, hs, haccepted, hcommitted⟩

theorem recvTask_allCommitted_iff_answer : ∃ s, recvTask (portScan 1) [answerRound] idleReceiver =
    some (s, []) ∧ (s.store.shm.AllCommitted ↔ FlushesAll (FlushDue 60) (0 / 1000)
      (storeCalls (portScan 1) pageConf [] ([answerRound].flatMap Round.deliveries))) := by
  obtain ⟨s, hs, _⟩ := recvTask_answer
  exact ⟨s, hs, recvTask_allCommitted_iff (portScan 1) pageConf zeroMem 0 60 hs⟩

/-- Its record is accepted and in no committed chunk. -/
theorem recvTask_uncommitted : ∃ s, recvTask (portScan 1) [answerRound] idleReceiver = some (s, []) ∧
    s.store.shm.accepted ≠ [] ∧ ¬ s.store.shm.AllCommitted := by
  obtain ⟨s, hs, haccepted, hcommitted⟩ := recvTask_answer
  refine ⟨s, hs, ?_, ?_⟩
  · intro hnil
    simp [hnil] at haccepted
  · simp [Trace.AllCommitted, haccepted, hcommitted]

end Xmap.Task
