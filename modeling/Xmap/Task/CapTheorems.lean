import Xmap.Task.DedupTheorems
import Xmap.Task.RecvTheorems
import Xmap.Task.Work

/-!
# Theorems on the limit of results

The loop of the receiver looks at the limit between two calls of the driver. A call that brings one packet
never passes it; a burst can.
-/

namespace Xmap.Task

open Xmap.Lib Xmap.Probe Xmap.Shm

/-- `_pcap_rcv`: one packet. -/
def pcapRcv (d : Delivery) : List Delivery := [d]

/-- `_pfring_rcv`: what waits, up to `rx_per_n_buf` packets. -/
def pfringRcv (rxPerNBuf : Nat) (queue : List Delivery) : List Delivery := queue.take rxPerNBuf

def Round.frames (r : Round) : List Frame := r.deliveries.map Delivery.toFrame

/-- The loop of `_recv_task_run` over the rounds that there have been, with what it has handed to the store. -/
def recvRounds (context : RecvContext) : List Round → RecvRun → RecvRun
  | [], run => run
  | r :: rounds, run =>
    let run := r.frames.foldl (RecvRun.step context) run
    if resultLimit context ≠ 0 ∧ resultLimit context ≤ run.task.xrecv.filterSuccess then run
    else if CooldownOver context r.sendComplete r.now r.sendFinish then run
    else recvRounds context rounds run

/-- The number of the packets that are to be stored: the valid ones, or the first one of each address. -/
def storable (context : RecvContext) (fs : List Frame) : Nat :=
  if context.filterDuplicates then (firstFrames context fs).length else (addresses context fs).length

/-- While the limit is not reached and the loop goes on, no call brings more than what is missing. -/
def BurstsFit (context : RecvContext) : List Frame → List Round → Prop
  | _, [] => True
  | fs, r :: rounds =>
    storable context (fs ++ r.frames) ≤ context.maxResults.toNat ∧
      (storable context (fs ++ r.frames) < context.maxResults.toNat →
        ¬ CooldownOver context r.sendComplete r.now r.sendFinish →
        BurstsFit context (fs ++ r.frames) rounds)

/-! ## The loop and its store -/

section
variable {context : RecvContext} {fs : List Frame} {f : Frame}

theorem receive_task {ds : List Delivery} {s s' : RecvSys} (handed : List ShmRecord)
    (h : receive context ds s = some s') :
    s'.task = ((ds.map Delivery.toFrame).foldl (RecvRun.step context) ⟨s.task, handed⟩).task := by
  induction ds generalizing s handed with
  | nil =>
    cases h
    rfl
  | cons d ds ih =>
    rw [receive] at h
    cases hd : handle context s d with
    | none => simp [hd] at h
    | some t =>
      simp only [hd] at h
      have htask : t.task = (recvPacketHandle context s.task d.toFrame).1 := by
        unfold handle at hd
        cases hr : (recvPacketHandle context s.task d.toFrame).2 with
        | none =>
          simp only [hr, Option.some.injEq] at hd
          rw [← hd]
        | some r =>
          simp only [hr, Option.map_eq_some_iff] at hd
          obtain ⟨store, -, rfl⟩ := hd
          rfl
      rw [ih _ h, htask]
      rfl

/-- The receiver with its store is where the loop without it is. -/
theorem recvLoop_task {rounds left : List Round} {s s' : RecvSys} {handed : List ShmRecord}
    (h : recvLoop context rounds s = some (s', left)) :
    s'.task = (recvRounds context rounds ⟨s.task, handed⟩).task := by
  induction rounds generalizing s handed with
  | nil => cases h
  | cons r rounds ih =>
    rw [recvLoop_cons] at h
    cases hr : receive context r.deliveries s with
    | none => simp [hr] at h
    | some t =>
      have htask := receive_task handed hr
      simp only [hr] at h
      rw [recvRounds, Round.frames]
      generalize (r.deliveries.map Delivery.toFrame).foldl (RecvRun.step context) ⟨s.task, handed⟩ = run at htask
      obtain ⟨task, handed'⟩ := run
      subst htask
      by_cases hlimit : resultLimit context ≠ 0 ∧ resultLimit context ≤ t.task.xrecv.filterSuccess
      · have hleaves : RecvLeaves context t r.sendComplete r.now r.sendFinish := Or.inl hlimit
        rw [if_pos hleaves] at h
        cases h
        simp only [if_pos hlimit]
      · simp only [if_neg hlimit]
        by_cases hover : CooldownOver context r.sendComplete r.now r.sendFinish
        · have hleaves : RecvLeaves context t r.sendComplete r.now r.sendFinish := Or.inr hover
          rw [if_pos hleaves] at h
          cases h
          rw [if_pos hover]
        · have hstays : ¬ RecvLeaves context t r.sendComplete r.now r.sendFinish :=
            not_or.mpr ⟨hlimit, hover⟩
          rw [if_neg hstays] at h
          rw [if_neg hover]
          exact ih h

theorem storable_append_none (ha : address context f = none) :
    storable context (fs ++ [f]) = storable context fs := by
  have hfirst : firstFrames context (fs ++ [f]) = firstFrames context fs := firstFrames_append_old (by simp [ha])
  rw [storable, storable, hfirst, addresses_append_singleton, ha, Option.toList_none, List.append_nil]

theorem storable_append_some {x : UInt32} (ha : address context f = some x) : storable context (fs ++ [f]) =
    storable context fs + if x ∈ addresses context fs ∧ context.filterDuplicates = true then 0 else 1 := by
  rw [storable, storable, addresses_append_singleton, ha, Option.toList_some, List.length_append,
    List.length_singleton]
  cases hfilter : context.filterDuplicates with
  | false => simp
  | true =>
    by_cases hx : x ∈ addresses context fs
    · rw [firstFrames_append_old fun y hy => by rw [ha] at hy; cases hy; exact hx]
      simp [hx]
    · rw [firstFrames_append_new ha hx]
      simp [hx]

/-- The receiver hands over, and counts, the packets that are to be stored. -/
theorem recvFrames_storable (context : RecvContext) (fs : List Frame) :
    (recvFrames context fs).handed.length = storable context fs ∧
      (recvFrames context fs).task.xrecv.filterSuccess = UInt32.ofNat (storable context fs) := by
  induction fs using List.reverseRecOn with
  | nil => simp [recvFrames, storable, firstFrames, addresses, xrecvInit]
  | append_singleton fs f ih =>
    obtain ⟨hlen, hcount⟩ := ih
    rw [recvFrames_append_singleton, RecvRun.step]
    cases hv : validatePacket context f with
    | none =>
      have ha : address context f = none := by simp [address, hv]
      have hsame : (countInvalid context f (recvFrames context fs).task.xrecv).filterSuccess =
          (recvFrames context fs).task.xrecv.filterSuccess := by
        unfold countInvalid
        split <;> rfl
      rw [storable_append_none ha]
      simp only [recvPacketHandle_invalid hv, Option.toList_none, List.append_nil, hsame]
      exact ⟨hlen, hcount⟩
    | some v =>
      obtain ⟨x, validation⟩ := v
      have ha := address_eq hv
      have hseen : xmPbmCheck (recvFrames context fs).task.seen (ntohl x) = true ↔ x ∈ addresses context fs :=
        recvFrames_seen fs x
      rw [storable_append_some ha]
      by_cases hdrop : x ∈ addresses context fs ∧ context.filterDuplicates = true
      · rw [if_pos hdrop]
        simp only [recvPacketHandle_repeat hv (hseen.mpr hdrop.1), if_pos hdrop.2, Option.toList_none,
          List.append_nil, Nat.add_zero, countValid]
        exact ⟨hlen, hcount⟩
      · have hadd : UInt32.ofNat (storable context fs + 1) = UInt32.ofNat (storable context fs) + 1 := by simp
        have hsuccess : (recvPacketHandle context (recvFrames context fs).task f).1.xrecv.filterSuccess =
            (recvFrames context fs).task.xrecv.filterSuccess + 1 := by
          cases hr : xmPbmCheck (recvFrames context fs).task.seen (ntohl x) with
          | false => rw [recvPacketHandle_new hv hr]
          | true =>
            rw [recvPacketHandle_repeat hv hr, if_neg fun hfilter => hdrop ⟨hseen.mp hr, hfilter⟩]
        rw [if_neg hdrop, hsuccess, hcount, hadd, recvPacketHandle_stored hv (by rwa [hseen])]
        exact ⟨by rw [List.length_append, hlen]; rfl, rfl⟩

/-! ## The limit -/

theorem recvFrames_append (gs : List Frame) :
    gs.foldl (RecvRun.step context) (recvFrames context fs) = recvFrames context (fs ++ gs) := by
  rw [recvFrames, recvFrames, List.foldl_append]

theorem step_handed_le (run : RecvRun) : run.handed.length ≤ (run.step context f).handed.length := by
  rw [RecvRun.step, List.length_append]
  exact Nat.le_add_right _ _

theorem foldl_handed_le (context : RecvContext) (gs : List Frame) (run : RecvRun) :
    run.handed.length ≤ (gs.foldl (RecvRun.step context) run).handed.length := by
  induction gs generalizing run with
  | nil => exact le_rfl
  | cons g gs ih => exact (step_handed_le run).trans (ih (run.step context g))

theorem recvRounds_handed_le (rounds : List Round) (run : RecvRun) :
    run.handed.length ≤ (recvRounds context rounds run).handed.length := by
  induction rounds generalizing run with
  | nil => exact le_rfl
  | cons r rounds ih =>
    have hstep := foldl_handed_le context r.frames run
    simp only [recvRounds]
    split
    · exact hstep
    · split
      · exact hstep
      · exact hstep.trans (ih _)

/-- A burst is handed over as a whole. -/
theorem storable_le_recvRounds (context : RecvContext) (r : Round) (rounds : List Round) (fs : List Frame) :
    storable context (fs ++ r.frames) ≤
      (recvRounds context (r :: rounds) (recvFrames context fs)).handed.length := by
  rw [← (recvFrames_storable context (fs ++ r.frames)).1, recvRounds]
  simp only [recvFrames_append]
  split
  · exact le_rfl
  · split
    · exact le_rfl
    · exact recvRounds_handed_le rounds _

/-- While the limit is not passed, the counter is the number that was handed over. -/
theorem limit_reached_iff (hlimit : context.maxResults ≠ 0)
    (hle : storable context fs ≤ context.maxResults.toNat) :
    resultLimit context ≠ 0 ∧ resultLimit context ≤ (recvFrames context fs).task.xrecv.filterSuccess ↔
      storable context fs = context.maxResults.toNat := by
  have hlt := context.maxResults.toNat_lt
  rw [resultLimit, if_neg hlimit, (recvFrames_storable context fs).2, and_iff_right hlimit,
    UInt32.le_iff_toNat_le, UInt32.toNat_ofNat', Nat.mod_eq_of_lt (by omega)]
  omega

theorem recvRounds_limit (hlimit : context.maxResults ≠ 0) (rounds : List Round) (fs : List Frame)
    (hfs : storable context fs ≤ context.maxResults.toNat) :
    (recvRounds context rounds (recvFrames context fs)).handed.length ≤ context.maxResults.toNat ↔
      BurstsFit context fs rounds := by
  induction rounds generalizing fs with
  | nil =>
    rw [recvRounds, (recvFrames_storable context fs).1]
    exact iff_of_true hfs trivial
  | cons r rounds ih =>
    have hhanded := (recvFrames_storable context (fs ++ r.frames)).1
    have hburst := storable_le_recvRounds context r rounds fs
    rw [BurstsFit]
    by_cases hover : context.maxResults.toNat < storable context (fs ++ r.frames)
    · exact iff_of_false (by omega) fun h => absurd h.1 (by omega)
    · have hle : storable context (fs ++ r.frames) ≤ context.maxResults.toNat := by omega
      have hreached := limit_reached_iff hlimit hle
      rw [recvRounds, recvFrames_append]
      by_cases heq : storable context (fs ++ r.frames) = context.maxResults.toNat
      · simp only [if_pos (hreached.mpr heq), hhanded]
        exact iff_of_true hle ⟨hle, fun hlt => absurd heq hlt.ne⟩
      · simp only [if_neg (mt hreached.mp heq)]
        by_cases hcool : CooldownOver context r.sendComplete r.now r.sendFinish
        · rw [if_pos hcool, hhanded]
          exact iff_of_true hle ⟨hle, fun _ hnot => absurd hcool hnot⟩
        · rw [if_neg hcool, ih (fs ++ r.frames) hle]
          exact ⟨fun h => ⟨hle, fun _ _ => h⟩, fun h => h.2 (by omega) hcool⟩

/-- For every limit of at least 1, a run stores no more records exactly when, as long as it goes on and has
stored fewer, no call of the driver brings more than are missing. -/
theorem recvRounds_capped_iff (context : RecvContext) (rounds : List Round) (hlimit : context.maxResults ≠ 0) :
    (recvRounds context rounds (recvFrames context [])).handed.length ≤ context.maxResults.toNat ↔
      BurstsFit context [] rounds :=
  recvRounds_limit hlimit rounds [] (by simp [storable, firstFrames, addresses])

theorem burstsFit_of_single {rounds : List Round} {fs : List Frame}
    (hfs : storable context fs < context.maxResults.toNat)
    (h : ∀ r ∈ rounds, ∃ d, r.deliveries = pcapRcv d) : BurstsFit context fs rounds := by
  induction rounds generalizing fs with
  | nil => exact trivial
  | cons r rounds ih =>
    obtain ⟨⟨d, hd⟩, hrest⟩ := List.forall_mem_cons.mp h
    have hone : storable context (fs ++ r.frames) ≤ storable context fs + 1 := by
      rw [Round.frames, hd]
      show storable context (fs ++ [d.toFrame]) ≤ _
      cases ha : address context d.toFrame with
      | none => rw [storable_append_none ha]; omega
      | some x =>
        rw [storable_append_some ha]
        split <;> omega
    exact ⟨by omega, fun hlt _ => ih hlt hrest⟩

/-- With one packet for each call the limit holds. -/
theorem recvRounds_pcapRcv (hlimit : context.maxResults ≠ 0) {rounds : List Round}
    (h : ∀ r ∈ rounds, ∃ d, r.deliveries = pcapRcv d) :
    (recvRounds context rounds (recvFrames context [])).handed.length ≤ context.maxResults.toNat := by
  have hpos : 0 < context.maxResults.toNat := Nat.pos_of_ne_zero fun hzero =>
    hlimit (UInt32.toNat_inj.mp hzero)
  have hnone : storable context [] = 0 := by simp [storable, firstFrames, addresses]
  refine (recvRounds_limit hlimit rounds [] (by omega)).mpr (burstsFit_of_single ?_ h)
  rwa [hnone]

end

theorem recvRounds_capped_iff_answer :
    (recvRounds (portScan 1) [answerRound] (recvFrames (portScan 1) [])).handed.length ≤
        (portScan 1).maxResults.toNat ↔ BurstsFit (portScan 1) [] [answerRound] :=
  recvRounds_capped_iff (portScan 1) [answerRound] (by decide)

/-- A burst with the answers of two hosts. -/
def burstRound : Round :=
  ⟨pfringRcv 128 [⟨frameOf (tcpAnswer 2 (TH_SYN ||| TH_ACK)), [0], 0, 0⟩,
    ⟨frameOf (tcpAnswer 3 (TH_SYN ||| TH_ACK)), [0], 0, 0⟩], false, 0, 0⟩

/-- A scan for one result stores both. -/
theorem recvRounds_passes_limit :
    ¬ (recvRounds (portScan 1) [burstRound] (recvFrames (portScan 1) [])).handed.length ≤
      (portScan 1).maxResults.toNat := by
  have hburst := storable_le_recvRounds (portScan 1) burstRound [] []
  have htwo : storable (portScan 1) ([] ++ burstRound.frames) = 2 := by decide +kernel
  have hone : (portScan 1).maxResults.toNat = 1 := rfl
  omega

end Xmap.Task
