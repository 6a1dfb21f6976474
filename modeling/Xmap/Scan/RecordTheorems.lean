import Xmap.Lib.Steps
import Xmap.Scan.Lemmas.Network
import Xmap.Shm.StreamTheorems

/-!
# Theorems on the hosts that are recorded

Whatever the network does, the receiver has recorded the hosts whose answers it accepts, and no others but those of
packets that carry the words of their own addresses.
-/

namespace Xmap.Scan

open Xmap.Lib Xmap.Probe Xmap.Shm Xmap.Target Xmap.Task

/-- The receiver as a judge of packets. -/
def receiverJudge (context : ScanContext) : Judge Sent Packet UInt32 where
  Answers := IsAnswer context
  Genuine := Genuine context
  Counts := Counts context
  host p := p.args.dip
  verdict r := address context.recv r.toFrame

instance (context : ScanContext) (p : Sent) (r : Packet) : Decidable ((receiverJudge context).Answers p r) :=
  inferInstanceAs (Decidable (IsAnswer context p r))

/-- A host is recorded. -/
def ScanSys.Recorded (s : ScanSys) (x : UInt32) : Prop := xmPbmCheck s.work.recv.task.seen (ntohl x) = true

/-- A probe was sent to a host that one of the senders has gone through. -/
def ScanSys.Probed (s : ScanSys) (p : Sent) : Prop :=
  ∃ x ∈ s.work.senders, ∃ ip ∈ x.hosts, p.args.dip = UInt32.ofNat ip

structure ScanInv (context : ScanContext) (s : ScanSys) : Prop where
  built : ∀ b ∈ s.buffers, Built context b.buf
  explained : s.wire.Explained (receiverJudge context)
  probed : ∀ p ∈ s.wire.sent, s.Probed p
  recorded : ∀ x, s.Recorded x ↔ ∃ r ∈ s.wire.taken, address context.recv r.packet.toFrame = some x

section
variable {context : ScanContext} {s t : ScanSys} {a : ScanAction} {i fuel : Nat} {inputs : SendInputs} {w : WorkSys}
  {b : SendBuffer} {ps : List Sent} {x y : Sender}

/-! ## Steps -/

theorem ScanSys.Probed.mono {p : Sent} (h : s.Probed p)
    (hmem : ∀ z ∈ s.work.senders, ∃ z' ∈ t.work.senders, ∀ ip ∈ z.hosts, ip ∈ z'.hosts) : t.Probed p := by
  obtain ⟨z, hz, ip, hip, hdip⟩ := h
  obtain ⟨z', hz', hhosts⟩ := hmem z hz
  exact ⟨z', hz', ip, hhosts ip hip, hdip⟩

/-- The probes that a sender sends, when it sends. -/
theorem sends_spec (h : ScanInv context s) (hsends : s.sends context i inputs = some (b, ps)) :
    ∃ x, s.work.senders[i]? = some x ∧ x.pc = .active ∧ SentTo context (UInt32.ofNat x.currentIp) (b, ps) := by
  unfold ScanSys.sends at hsends
  split at hsends
  · next x c hx hc =>
    split at hsends
    · next hpc =>
      have hsent : SentTo context (UInt32.ofNat x.currentIp)
          (sendStreams context (UInt32.ofNat x.currentIp) inputs c) :=
        sendStreams_sentTo (h.built c (List.mem_of_getElem? hc))
      rw [Option.some.inj hsends] at hsent
      exact ⟨x, hx, hpc, hsent⟩
    · cases hsends
  · cases hsends

theorem ScanInv.afterSend (h : ScanInv context s) (hw : SenderStepped s.work w i x y) :
    ScanInv context (s.afterSend context w i inputs) := by
  have hseen (t : ScanSys) (ht : t.work.recv = w.recv) (z : UInt32) : t.Recorded z ↔ s.Recorded z := by
    rw [ScanSys.Recorded, ScanSys.Recorded, ht, hw.recv]
  unfold ScanSys.afterSend
  split
  · exact ⟨h.built, h.explained, fun p hp => (h.probed p hp).mono hw.mem,
      fun z => (hseen _ rfl z).trans (h.recorded z)⟩
  · next b ps hsends =>
    obtain ⟨x', hx', hpc, hsent⟩ := sends_spec h hsends
    rw [hw.at_i] at hx'
    cases hx'
    obtain ⟨hy, hcurrent⟩ := hw.mem_current hpc
    refine ⟨?_, h.explained.send hsent.genuine, ?_, fun z => (hseen _ rfl z).trans (h.recorded z)⟩
    · intro c hc
      rcases List.mem_or_eq_of_mem_set hc with hc | rfl
      · exact h.built c hc
      · exact hsent.built
    · intro p hp
      rcases List.mem_append.mp hp with hp | hp
      · exact (h.probed p hp).mono hw.mem
      · exact ⟨y, hy, x.currentIp, hcurrent, hsent.dip p hp⟩

theorem ScanInv.scanStep (h : ScanInv context s) (ht : scanStep context s a = some t) : ScanInv context t := by
  cases a with
  | tick time =>
    obtain ⟨w, hw, rfl⟩ := Option.map_eq_some_iff.mp ht
    obtain ⟨hsenders, hrecv⟩ := workStep_tick hw
    refine ⟨h.built, h.explained, fun p hp => (h.probed p hp).mono fun z hz => ⟨z, ?_, fun _ hip => hip⟩, fun z => ?_⟩
    · rwa [hsenders]
    · rw [ScanSys.Recorded, hrecv]
      exact h.recorded z
  | sender i fuel inputs =>
    obtain ⟨w, hw, rfl⟩ := Option.map_eq_some_iff.mp ht
    obtain ⟨x, y, hstepped⟩ := workStep_sender hw
    exact h.afterSend hstepped
  | network e =>
    obtain ⟨wire, hwire, rfl⟩ := Option.map_eq_some_iff.mp ht
    have hsent : wire.sent = s.wire.sent ∧ wire.taken = s.wire.taken := Wire.event_kept hwire
    refine ⟨h.built, h.explained.event hwire, fun p hp => h.probed p (hsent.1 ▸ hp), fun z => ?_⟩
    rw [hsent.2]
    exact h.recorded z
  | receiver arrivals =>
    obtain ⟨w, hw, rfl⟩ := Option.map_eq_some_iff.mp ht
    obtain ⟨recv, hrecv, hsenders, hseen, -⟩ := workStep_receiver hw
    rw [deliver_arrived] at hrecv
    refine ⟨h.built, h.explained.take fun r hr => ?_,
      fun p hp => (h.probed p hp).mono fun z hz => ⟨z, ?_, fun _ hip => hip⟩,
      fun z => ?_⟩
    · obtain ⟨q, hq, rfl⟩ := List.mem_map.mp hr
      exact (arrived_spec hq).1
    · rwa [hsenders]
    · rw [ScanSys.Recorded, hseen, receive_seen hrecv, arrived_address]
      simp only [Wire.take, List.mem_append, or_and_right, exists_or]
      exact or_congr (h.recorded z) Iff.rfl

theorem xmScanStart_inv (context : ScanContext) (shards : List XmShard) (conf : ShmConf) (mem : Mem)
    (timems flushTimeout : UInt64) (clock : ℚ) (random : Nat → UInt32) :
    ScanInv context (xmScanStart context shards (xmRecvTaskCreate conf mem timems flushTimeout) clock random) where
  built b hb := by
    obtain ⟨i, hi, rfl⟩ := List.mem_mapIdx.mp hb
    exact Built.init (random i)
  explained := .empty
  probed p hp := absurd hp (List.not_mem_nil)
  recorded z := by
    simp [ScanSys.Recorded, xmScanStart, xmWorkStart, xmRecvTaskCreate, xmPbmCheck, xmPbmInit, Wire.empty]

end

/-- What is recorded in a state of a scan: the host of every probe that counts and of which an answer was taken, and
the source of a packet of others that passed the check. Every probe was sent to a host that a sender has gone
through. -/
structure RecordsAnswers (context : ScanContext) (s : ScanSys) : Prop where
  recorded : ∀ x, s.Recorded x ↔
    (∃ p ∈ s.wire.sent, p.args.dip = x ∧ Counts context p ∧ ∃ r ∈ s.wire.taken, r.origin = some p) ∨
      ∃ r ∈ s.wire.taken, r.origin = none ∧ address context.recv r.packet.toFrame = some x
  answers : ∀ r ∈ s.wire.taken, ∀ p, r.origin = some p → p ∈ s.wire.sent ∧ IsAnswer context p r.packet
  probed : ∀ p ∈ s.wire.sent, s.Probed p

/-- For every probe module, over any run of the senders, the network and the receiver, with calls of
`xm_validate_gen` one after the other. -/
theorem scanStates_recorded (context : ScanContext)
    (hrange : context.gcontext.sourcePortFirst ≤ context.gcontext.sourcePortLast)
    (hstreams : context.gcontext.packetStreams < 2 ^ 31) (shards : List XmShard) (conf : ShmConf) (mem : Mem)
    (timems flushTimeout : UInt64) (clock : ℚ) (random : Nat → UInt32) (as : List ScanAction) :
    ∀ s ∈ states (scanStep context)
      (xmScanStart context shards (xmRecvTaskCreate conf mem timems flushTimeout) clock random) as,
      RecordsAnswers context s := by
  intro s hs
  have hinv : ScanInv context s :=
    states_invariant (fun _ _ _ ht hI => hI.scanStep ht)
      (xmScanStart_inv context shards conf mem timems flushTimeout clock random) s hs
  have hfair : (receiverJudge context).Fair := fun p r hp hr x => IsAnswer.address_iff hr hp hrange hstreams x
  exact
    { recorded := fun x => (hinv.recorded x).trans (hinv.explained.accepted_iff hfair x)
      answers := hinv.explained.taken
      probed := hinv.probed }

/-- A SYN scan of port 80 with one port and one address. -/
def synContext : ScanContext where
  probe := .tcpSynscan
  gcontext := onePort
  sourceIpAddresses := [0x0100000A]
  numberSourceIps_pos := Nat.one_pos
  srcipOffset := 0
  probeTtl := 255
  numRetries := 10
  sendIpPkts := false
  hwMac := []
  gwMac := []
  maxRuntime := 0
  listOfIps := none
  maxResults := 0
  cooldownSecs := 8

/-- A shard with one address, 10.0.0.2. -/
def oneHost : XmShard where
  state := ⟨0, 0, 0, 0, 0, 0, 0⟩
  params := ⟨3, 81, 27, 257⟩
  current := 3
  maxIndex := 256
  wblist := ⟨⟨XmNode.createLeaf addrAllowed, [0x0A000000], true, addrAllowed⟩⟩

def oneScan : ScanSys :=
  xmScanStart synContext [oneHost] (xmRecvTaskCreate pageConf zeroMem 0 60) 0 (fun _ => 0)

/-- The host is sent a SYN, answers it, and the receiver takes the answer. -/
def answeredRun : List ScanAction :=
  List.replicate 4 (.sender 0 2 ⟨fun _ _ => true, fun _ => 0, fun _ => 0⟩) ++
    [.network (.answer 0 ⟨fun i => (tcpAnswer 2 (TH_SYN ||| TH_ACK)).getD i 0, 54⟩),
      .receiver [⟨0, fun _ => 0, [0], 0, 0⟩]]

theorem answeredRun_records : ∃ s ∈ states (scanStep synContext) oneScan answeredRun,
    s.Recorded 0x0200000A ∧ s.work.recv.store.shm.accepted.length = 1 := by
  have hrun : ((states (scanStep synContext) oneScan answeredRun).getLast?.map fun s =>
      (xmPbmCheck s.work.recv.task.seen (ntohl 0x0200000A), s.work.recv.store.shm.accepted.length)) =
        some (true, 1) := by
    decide +kernel
  obtain ⟨s, hs, heq⟩ := Option.map_eq_some_iff.mp hrun
  obtain ⟨hseen, haccepted⟩ := Prod.mk.inj heq
  exact ⟨s, List.mem_of_getLast? hs, hseen, haccepted⟩

theorem scanStates_recorded_answer : ∃ s ∈ states (scanStep synContext) oneScan answeredRun,
    s.Recorded 0x0200000A ∧ RecordsAnswers synContext s := by
  obtain ⟨s, hs, hseen, -⟩ := answeredRun_records
  exact ⟨s, hs, hseen, scanStates_recorded synContext (by decide) (by decide) [oneHost] pageConf zeroMem 0 60 0
    (fun _ => 0) answeredRun s hs⟩

end Xmap.Scan
