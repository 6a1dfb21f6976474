import Xmap.Scan.Lemmas.Verdicts
import Xmap.Scan.Network
import Xmap.Task.Lemmas.Work

/-!
# Steps of a scan

What a step sends, what it hands over, and what the receiver has seen after it.
-/

namespace Xmap.Scan

open Xmap.Lib Xmap.Probe Xmap.Shm Xmap.Target Xmap.Task

section
variable {context : ScanContext} {dst : UInt32} {inputs : SendInputs} {b : SendBuffer} {s : ScanSys} {w v : WorkSys}
  {i fuel : Nat}

/-! ## Sending -/

/-- A buffer and the probes that were built in it for a host. -/
structure SentTo (context : ScanContext) (dst : UInt32) (s : SendBuffer × List Sent) : Prop where
  built : Built context s.1.buf
  genuine : ∀ p ∈ s.2, Genuine context p
  dip : ∀ p ∈ s.2, p.args.dip = dst

theorem SentTo.sendStream {s : SendBuffer × List Sent} (h : SentTo context dst s)
    (hi : i < context.gcontext.packetStreams.toNat) : SentTo context dst (sendStream context dst inputs s i) := by
  have hbuilt : Built context
      (context.probe.makePacket context.gcontext s.1.buf 0 (streamArgs context dst inputs i)) :=
    h.built.makePacket _
  unfold Xmap.Scan.sendStream
  dsimp only
  split
  · refine ⟨hbuilt, ?_, ?_⟩
    · intro p hp
      rcases List.mem_append.mp hp with hp | hp
      · exact h.genuine p hp
      · rw [List.mem_singleton.mp hp]
        have hlt : (i : Int) < context.gcontext.packetStreams := by omega
        exact ⟨⟨s.1.buf, h.built, rfl⟩, rfl, Int.natCast_nonneg i, hlt⟩
    · intro p hp
      rcases List.mem_append.mp hp with hp | hp
      · exact h.dip p hp
      · rw [List.mem_singleton.mp hp]
        rfl
  · exact ⟨hbuilt, h.genuine, h.dip⟩

theorem sendStreams_sentTo (hb : Built context b.buf) : SentTo context dst (sendStreams context dst inputs b) := by
  have hrange : ∀ n ≤ context.gcontext.packetStreams.toNat,
      SentTo context dst ((List.range n).foldl (sendStream context dst inputs) (b, [])) := by
    intro n hn
    induction n with
    | zero => exact ⟨hb, by simp, by simp⟩
    | succ n ih =>
      rw [List.range_succ, List.foldl_append]
      exact (ih (by omega)).sendStream (by omega)
  exact hrange _ le_rfl

/-! ## Steps of the senders -/

/-- The sender after a step, but for its place. -/
def sentBy : SendStep → Sender
  | .goesOn x => x
  | .leaves x _ => x

theorem take_hosts (x : Sender) (r : XmShard × Option Nat) : (sentBy (x.take r)).hosts = x.hosts := by
  obtain ⟨_, ip⟩ := r
  cases ip <;> rfl

theorem sendStep_hosts {c : SendTaskContext} {shared : SendShared} {x : Sender} {r : SendStep}
    (h : sendStep c shared fuel x = some r) :
    (sentBy r).hosts = if x.pc = .active then x.currentIp :: x.hosts else x.hosts := by
  cases sendStep_move h with
  | first fuel hpc hr => simp [hpc, take_hosts]
  | complete hpc hcomplete => simp [hpc, sentBy]
  | quota hpc hquota => simp [hpc, sentBy]
  | pass hpc hquota => simp [hpc, sentBy]
  | runtime hpc hover => simp [hpc, sentBy]
  | depleted hpc hdone => simp [hpc, sentBy]
  | active hpc => simp [hpc, sentBy]
  | next fuel hpc hr => simp [hpc, take_hosts]

/-- What a step of sender `i` changes. -/
structure SenderStepped (w v : WorkSys) (i : Nat) (x y : Sender) : Prop where
  at_i : w.senders[i]? = some x
  senders : v.senders = w.senders.set i y
  hosts : y.hosts = if x.pc = .active then x.currentIp :: x.hosts else x.hosts
  recv : v.recv = w.recv

theorem workStep_sender {c : WorkContext} (h : workStep c w (.sender i fuel) = some v) :
    ∃ x y, SenderStepped w v i x y := by
  simp only [workStep] at h
  split at h
  · cases h
  · next x hx =>
    obtain ⟨r, hr, rfl⟩ := Option.map_eq_some_iff.mp h
    have hhosts := sendStep_hosts hr
    cases r with
    | goesOn y => exact ⟨x, y, hx, rfl, hhosts, rfl⟩
    | leaves y exit => exact ⟨x, _, hx, rfl, hhosts, rfl⟩

/-- A sender keeps its hosts, and no other sender changes. -/
theorem SenderStepped.mem {x y : Sender} (h : SenderStepped w v i x y) :
    ∀ z ∈ w.senders, ∃ z' ∈ v.senders, ∀ ip ∈ z.hosts, ip ∈ z'.hosts := by
  intro z hz
  obtain ⟨j, hj⟩ := List.mem_iff_getElem?.mp hz
  by_cases hij : i = j
  · subst hij
    rw [h.at_i] at hj
    cases hj
    refine ⟨y, ?_, fun ip hip => ?_⟩
    · rw [h.senders]
      exact List.mem_set (List.getElem?_eq_some_iff.mp h.at_i).1 y
    · rw [h.hosts]
      split
      · exact List.mem_cons_of_mem _ hip
      · exact hip
  · refine ⟨z, ?_, fun _ hip => hip⟩
    apply List.mem_of_getElem? (i := j)
    rw [h.senders, List.getElem?_set_ne hij, hj]

/-- The current host of a sender that sends is one of its hosts after the step. -/
theorem SenderStepped.mem_current {x y : Sender} (h : SenderStepped w v i x y) (hpc : x.pc = .active) :
    y ∈ v.senders ∧ x.currentIp ∈ y.hosts := by
  constructor
  · rw [h.senders]
    exact List.mem_set (List.getElem?_eq_some_iff.mp h.at_i).1 y
  · rw [h.hosts, if_pos hpc]
    exact List.mem_cons_self

/-! ## Rounds of the receiver -/

theorem handle_spec {c : RecvContext} {s t : RecvSys} {d : Delivery} (h : handle c s d = some t) :
    t.task = (recvPacketHandle c s.task d.toFrame).1 ∧
      (∀ r, (recvPacketHandle c s.task d.toFrame).2 = some r → xmStoreFlush s.store r d = some t.store) ∧
      ((recvPacketHandle c s.task d.toFrame).2 = none → t.store = s.store) := by
  unfold handle at h
  cases hr : (recvPacketHandle c s.task d.toFrame).2 with
  | none =>
    simp only [hr, Option.some.injEq] at h
    subst h
    simp
  | some r =>
    simp only [hr, Option.map_eq_some_iff] at h
    obtain ⟨store, hstore, rfl⟩ := h
    simp [hstore]

theorem receive_seen {c : RecvContext} {s t : RecvSys} {ds : List Delivery} (h : receive c ds s = some t)
    (x : UInt32) :
    xmPbmCheck t.task.seen (ntohl x) = true ↔
      xmPbmCheck s.task.seen (ntohl x) = true ∨ ∃ d ∈ ds, address c d.toFrame = some x := by
  induction ds generalizing s with
  | nil =>
    cases h
    simp
  | cons d ds ih =>
    rw [receive] at h
    cases hd : handle c s d with
    | none => simp [hd] at h
    | some u =>
      simp only [hd] at h
      rw [ih h, (handle_spec hd).1, recvPacketHandle_seen, List.exists_mem_cons_iff]
      exact ⟨fun hor => by tauto, fun hor => by tauto⟩

/-- What a round of the receiver changes. -/
theorem workStep_receiver {c : WorkContext} {ds : List Delivery} (h : workStep c w (.receiver ds) = some v) :
    ∃ recv, receive c.recv (w.deliver ds) w.recv = some recv ∧ v.senders = w.senders ∧
      v.recv.task.seen = recv.task.seen ∧ v.recv.store = recv.store := by
  simp only [workStep] at h
  split at h
  · cases h
  · obtain ⟨recv, hrecv, rfl⟩ := Option.map_eq_some_iff.mp h
    refine ⟨recv, hrecv, afterRound_senders recv, ?_, ?_⟩ <;> unfold WorkSys.afterRound <;> split <;> rfl

theorem workStep_tick {c : WorkContext} {time : ℚ} (h : workStep c w (.tick time) = some v) :
    v.senders = w.senders ∧ v.recv = w.recv := by
  simp only [workStep] at h
  split at h
  · cases h
    exact ⟨rfl, rfl⟩
  · cases h

/-! ## Arrivals -/

theorem arrived_spec {coming : List (Reply Sent Packet)} {sendComplete : Bool} {arrivals : List Arrival}
    {q : Reply Sent Packet × Delivery} (h : q ∈ arrived coming sendComplete arrivals) :
    q.1 ∈ coming ∧ q.2.pktData = q.1.packet.data ∧ q.2.pktLen = q.1.packet.len ∧ q.2.sendComplete = sendComplete := by
  obtain ⟨a, -, ha⟩ := List.mem_filterMap.mp h
  obtain ⟨r, hr, rfl⟩ := Option.map_eq_some_iff.mp ha
  exact ⟨List.mem_of_getElem? hr, rfl, rfl, rfl⟩

theorem deliver_arrived (arrivals : List Arrival) :
    w.deliver ((arrived s.wire.coming w.complete arrivals).map Prod.snd) =
      (arrived s.wire.coming w.complete arrivals).map Prod.snd := by
  rw [WorkSys.deliver, List.map_map]
  apply List.map_congr_left
  intro q hq
  have hcomplete := (arrived_spec hq).2.2.2
  obtain ⟨r, ⟨f, reads, flushReads, timems⟩⟩ := q
  obtain ⟨data, len, sendComplete, eth⟩ := f
  simp only at hcomplete
  simp [hcomplete]

/-- The check of a packet looks at its bytes only. -/
theorem address_toFrame {c : RecvContext} {f : Frame} {r : Packet} (hdata : f.pktData = r.data)
    (hlen : f.pktLen = r.len) :
    address c f = address c r.toFrame := by
  simp only [address, validatePacket, Packet.toFrame, hdata, hlen]
  rfl

theorem arrived_address {c : RecvContext} {coming : List (Reply Sent Packet)} {sendComplete : Bool}
    {arrivals : List Arrival} {x : UInt32} :
    (∃ d ∈ (arrived coming sendComplete arrivals).map Prod.snd, address c d.toFrame = some x) ↔
      ∃ r ∈ (arrived coming sendComplete arrivals).map Prod.fst, address c r.packet.toFrame = some x := by
  simp only [List.mem_map, exists_exists_and_eq_and]
  constructor
  · rintro ⟨q, hq, hx⟩
    obtain ⟨-, hdata, hlen, -⟩ := arrived_spec hq
    exact ⟨q, hq, (address_toFrame hdata hlen).symm.trans hx⟩
  · rintro ⟨q, hq, hx⟩
    obtain ⟨-, hdata, hlen, -⟩ := arrived_spec hq
    exact ⟨q, hq, (address_toFrame hdata hlen).trans hx⟩

end

end Xmap.Scan
