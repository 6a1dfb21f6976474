import Xmap.Probe.TcpScan
import Xmap.Shm.Stream
import Xmap.Task.Pbm

/-!
# The receiver (`xm_recv_task`, `xm_store`)

The receiver validates the packets that the driver hands it, drops repeated ones and puts a record of each
other one into the ring, which it flushes when the flush timeout has passed.
-/

namespace Xmap.Task

open Xmap.Lib Xmap.Probe Xmap.Shm

/-- The fields of `xm_context_t` that the receiver reads. -/
structure RecvContext where
  probe : XmProbe
  validateGen : UInt32 → UInt32 → Validation
  packer : MsgpackPacker
  dataLinkSize : Nat
  sendIpPkts : Bool
  filterDuplicates : Bool
  maxResults : UInt32
  cooldownSecs : Int

/-- The counters of `context->xrecv`. -/
structure XRecv where
  successTotal : UInt32
  successUnique : UInt32
  cooldownTotal : UInt32
  cooldownUnique : UInt32
  filterSuccess : UInt32
  ipFragments : UInt32
  validationPassed : UInt32
  validationFailed : UInt32
  complete : Bool
deriving DecidableEq, Repr

def xrecvInit : XRecv := ⟨0, 0, 0, 0, 0, 0, 0, 0, false⟩

/-- A received packet, with what `xsend.complete` and the static `fake_eth_hdr` hold when it is
handled. -/
structure Frame where
  pktData : Mem
  pktLen : Nat
  sendComplete : Bool
  fakeEthHdr : Mem

structure XmRecvTask where
  seen : Pbm
  xrecv : XRecv

/-! ## One packet -/

section
variable (context : RecvContext)

/-- The packet and its length as `probe_process_packet` gets them. -/
def processedPacket (f : Frame) : Mem × Nat :=
  if context.sendIpPkts then
    let pktLen := min f.pktLen 65535
    (f.fakeEthHdr.write sizeofEtherHeader (f.pktData.read context.dataLinkSize pktLen), pktLen)
  else (f.pktData, f.pktLen)

/-- What is packed for a packet that has passed validation. -/
def packedRecord (f : Frame) (validation : Validation) : ShmRecord :=
  let p := processedPacket context f
  { type := context.probe.probeType
    data := xmProbeIpStore context.packer context.probe.probeType f.pktData context.dataLinkSize ++
      context.probe.probeProcessPacket context.packer p.1 0 (UInt32.ofNat p.2) validation }

/-- The length check and the probe's own check, with the source address and the validation words. -/
def validatePacket (f : Frame) : Option (UInt32 × Validation) :=
  if f.pktLen < sizeofIp + context.dataLinkSize then none
  else
    let ipHdr := context.dataLinkSize
    let srcIp := ipSrc f.pktData ipHdr
    let validation := context.validateGen (ipDst f.pktData ipHdr) (ipSrc f.pktData ipHdr)
    let len := UInt32.ofNat (f.pktLen - if context.sendIpPkts then 0 else sizeofEtherHeader)
    context.probe.probeValidatePacket f.pktData ipHdr len srcIp validation

/-- The counters after a packet that is too short or that the probe rejects. -/
def countInvalid (f : Frame) (xrecv : XRecv) : XRecv :=
  if f.pktLen < sizeofIp + context.dataLinkSize then xrecv
  else { xrecv with validationFailed := xrecv.validationFailed + 1 }

/-- The counters after a valid packet, but for `filter_success`. -/
def countValid (f : Frame) (isRepeat : Bool) (xrecv : XRecv) : XRecv :=
  { xrecv with
    validationPassed := xrecv.validationPassed + 1
    ipFragments := if ipOff f.pktData context.dataLinkSize &&& IP_MF ≠ 0 then xrecv.ipFragments + 1
      else xrecv.ipFragments
    successTotal := xrecv.successTotal + 1
    successUnique := if isRepeat then xrecv.successUnique else xrecv.successUnique + 1
    cooldownTotal := if f.sendComplete then xrecv.cooldownTotal + 1 else xrecv.cooldownTotal
    cooldownUnique := if f.sendComplete && !isRepeat then xrecv.cooldownUnique + 1
      else xrecv.cooldownUnique }

/-- `_recv_packet_handle`, with the record that it hands to `xm_store_flush`. -/
def recvPacketHandle (task : XmRecvTask) (f : Frame) : XmRecvTask × Option ShmRecord :=
  match validatePacket context f with
  | none => ({ task with xrecv := countInvalid context f task.xrecv }, none)
  | some (srcIp, validation) =>
    let isRepeat := xmPbmCheck task.seen (ntohl srcIp)
    let xrecv := countValid context f isRepeat task.xrecv
    let seen := if isRepeat then task.seen else xmPbmSet task.seen (ntohl srcIp)
    if isRepeat && context.filterDuplicates then (⟨seen, xrecv⟩, none)
    else (⟨seen, { xrecv with filterSuccess := xrecv.filterSuccess + 1 }⟩,
      some (packedRecord context f validation))

end

/-! ## The store -/

/-- `xm_store_t` over a run of the stream of results. -/
structure XmStore where
  shm : Trace
  shmLastTime : UInt64
  shmFlushTimeout : UInt64

/-- `reads` operations of the reading process. -/
def readerRuns (t : Trace) (reads : Nat) : Trace := t.run (List.replicate reads .read)

/-- The loop of `xm_shm_entry_record_put`: the reading process makes the given numbers of operations
before the attempts. It has not returned when the attempts run out. -/
def xmShmEntryRecordPut : List Nat → Trace → ShmRecord → Option Trace
  | [], _, _ => none
  | reads :: rest, t, r =>
    let t := readerRuns t reads
    let rc := (putOp t.sys r).2
    let t := t.step (.put r)
    if rc = 0 then some t
    else if rc = -2 then some t
    else xmShmEntryRecordPut rest t r

/-- The test of `_xstore_shm_flush`, on times in seconds. -/
def FlushDue (timeout lastTime curTime : UInt64) : Prop := timeout < curTime - lastTime

instance (timeout lastTime curTime : UInt64) : Decidable (FlushDue timeout lastTime curTime) :=
  inferInstanceAs (Decidable (_ < _))

def xstoreShmFlush (s : XmStore) (timems : UInt64) : XmStore :=
  let curTime := timems / 1000
  if FlushDue s.shmFlushTimeout s.shmLastTime curTime then
    { s with shm := s.shm.step .flush, shmLastTime := curTime }
  else s

/-- A packet with what goes on while it is stored: the operations of the reading process, and the time
in milliseconds when the store looks at the clock. -/
structure Delivery extends Frame where
  reads : List Nat
  flushReads : Nat
  timems : UInt64

/-- `xm_store_flush`. -/
def xmStoreFlush (s : XmStore) (r : ShmRecord) (d : Delivery) : Option XmStore :=
  match xmShmEntryRecordPut d.reads s.shm r with
  | none => none
  | some t => some (xstoreShmFlush { s with shm := readerRuns t d.flushReads } d.timems)

/-! ## The task -/

structure RecvSys where
  task : XmRecvTask
  store : XmStore

/-- One packet with its store. -/
def handle (context : RecvContext) (s : RecvSys) (d : Delivery) : Option RecvSys :=
  let h := recvPacketHandle context s.task d.toFrame
  match h.2 with
  | none => some { s with task := h.1 }
  | some r => (xmStoreFlush s.store r d).map fun store => ⟨h.1, store⟩

/-- `receive` of the driver: it hands over some packets. -/
def receive (context : RecvContext) : List Delivery → RecvSys → Option RecvSys
  | [], s => some s
  | d :: ds, s =>
    match handle context s d with
    | none => none
    | some s => receive context ds s

/-- A round of the loop: the packets of the call of `receive`, and then `xsend.complete`, `now()` and
`xsend.finish` in seconds. -/
structure Round where
  deliveries : List Delivery
  sendComplete : Bool
  now : ℚ
  sendFinish : ℚ

/-- `max_results` as the loop sees it. -/
def resultLimit (context : RecvContext) : UInt32 :=
  if context.maxResults = 0 then 0xFFFFFFFF else context.maxResults

/-- The loop of `_recv_task_run`, with the rounds left when it ends. -/
def recvLoop (context : RecvContext) : List Round → RecvSys → Option (RecvSys × List Round)
  | [], _ => none
  | r :: rounds, s =>
    match receive context r.deliveries s with
    | none => none
    | some s =>
      if resultLimit context ≠ 0 ∧ resultLimit context ≤ s.task.xrecv.filterSuccess then
        some (s, rounds)
      else if r.sendComplete = true ∧ (context.cooldownSecs : ℚ) < r.now - r.sendFinish then
        some (s, rounds)
      else recvLoop context rounds s

def recvTaskRun (context : RecvContext) (rounds : List Round) (s : RecvSys) :
    Option (RecvSys × List Round) :=
  (recvLoop context rounds s).map fun p =>
    ({ p.1 with task := { p.1.task with xrecv := { p.1.task.xrecv with complete := true } } }, p.2)

def recvTaskExit (s : RecvSys) : RecvSys := s

/-- `xm_recv_task_create`, at a time in milliseconds. -/
def xmRecvTaskCreate (conf : ShmConf) (mem : Mem) (timems flushTimeout : UInt64) : RecvSys :=
  { task := ⟨xmPbmInit, xrecvInit⟩
    store := ⟨conf.start mem, timems / 1000, flushTimeout⟩ }

/-- The task from its creation to its exit. -/
def recvTask (context : RecvContext) (rounds : List Round) (s : RecvSys) :
    Option (RecvSys × List Round) :=
  (recvTaskRun context rounds s).map fun p => (recvTaskExit p.1, p.2)

/-! ## A scan of port 80 -/

def frameOf (bytes : List UInt8) : Frame where
  pktData i := bytes.getD i 0
  pktLen := bytes.length
  sendComplete := false
  fakeEthHdr _ := 0

/-- The scan, from port 1000, and with validation words that are all 0. -/
def portScan (maxResults : UInt32) : RecvContext where
  probe := probeTcpSynscan ⟨80, 1000, 1000, 1, fun _ _ _ => 0⟩
  validateGen _ _ := fun _ => 0
  packer := msgpackPacker
  dataLinkSize := sizeofEtherHeader
  sendIpPkts := false
  filterDuplicates := true
  maxResults := maxResults
  cooldownSecs := 8

/-- The answer of the host with the given last byte: flags, and 1 as acknowledged number. -/
def tcpAnswer (host flags : UInt8) : List UInt8 :=
  List.replicate 14 0 ++
    [0x45, 0, 0, 40, 0, 7, 0, 0, 64, 6, 0, 0, 10, 0, 0, host, 10, 0, 0, 1] ++
    [0, 80, 0x03, 0xE8, 0, 0, 0, 0, 0, 0, 0, 1, 0x50, flags, 0, 0, 0, 0, 0, 0]

end Xmap.Task
