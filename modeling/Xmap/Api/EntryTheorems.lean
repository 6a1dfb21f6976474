import Xmap.Api.Entries
import Xmap.Probe.IcmpScan
import Xmap.Task.RecvTask

/-!
# Theorems on the records of packets

The reader gets back the fields of every valid packet that is long enough, and leaves no byte of its record.
-/

namespace Xmap.Api

open Xmap.Lib Xmap.Probe Xmap.Shm Xmap.Task

/-! ## Packing and unpacking -/

/-- The unpacker reads what the packer writes: map headers, strings and numbers. -/
structure RoundTrips (pk : MsgpackPacker) (unpacker : MessageUnpacker) : Prop where
  map : ∀ n < 2 ^ 31, ∀ bs,
    unpacker.unpackMapHeader.run (pk.packMap n ++ bs) = some ((n : Int), bs)
  str : ∀ s : String, s.utf8ByteSize < 2 ^ 31 → ∀ bs,
    unpacker.unpackString.run (pk.packStr s ++ bs) = some (s, bs)
  uint8 : ∀ v bs,
    unpacker.unpackInt.run (pk.packUint8 v ++ bs) = some ((v.toNat : Int), bs)
  uint16 : ∀ v bs,
    unpacker.unpackInt.run (pk.packUint16 v ++ bs) = some ((v.toNat : Int), bs)
  uint32 : ∀ v bs,
    unpacker.unpackLong.run (pk.packUint32 v ++ bs) = some ((v.toNat : Int), bs)
  uint64 : ∀ v : UInt64, v.toNat < 2 ^ 63 → ∀ bs,
    unpacker.unpackLong.run (pk.packUint64 v ++ bs) = some ((v.toNat : Int), bs)

theorem messageUnpacker_roundTrips : RoundTrips msgpackPacker messageUnpacker where
  map n hn bs := by
    have h := Msgpack.unpackMap_packMap (n := n) (by omega) bs
    simp only [StateT.run, messageUnpacker, msgpackPacker, h, Option.bind_some, if_pos hn]
  str s hs bs := Msgpack.unpackStr_packStr (lt_trans hs (by decide)) bs
  uint8 v bs := by
    have hv := v.toNat_lt
    have h := Msgpack.unpackUint_packUint (n := v.toNat) (by omega) bs
    simp only [StateT.run, messageUnpacker, msgpackPacker, h, Option.bind_some,
      if_pos (show v.toNat < 2 ^ 31 by omega)]
  uint16 v bs := by
    have hv := v.toNat_lt
    have h := Msgpack.unpackUint_packUint (n := v.toNat) (by omega) bs
    simp only [StateT.run, messageUnpacker, msgpackPacker, h, Option.bind_some,
      if_pos (show v.toNat < 2 ^ 31 by omega)]
  uint32 v bs := by
    have hv := v.toNat_lt
    have h := Msgpack.unpackUint_packUint (n := v.toNat) (by omega) bs
    simp only [StateT.run, messageUnpacker, msgpackPacker, h, Option.bind_some,
      if_pos (show v.toNat < 2 ^ 63 by omega)]
  uint64 v hv bs := by
    have h := Msgpack.unpackUint_packUint (n := v.toNat) v.toNat_lt bs
    simp only [StateT.run, messageUnpacker, msgpackPacker, h, Option.bind_some, if_pos hv]

section
variable {pk : MsgpackPacker} {unpacker : MessageUnpacker} {k : String}

/-- A key that is written, and that the unpacker can read. -/
def IsKey (k : String) : Prop := k.isEmpty = false ∧ k.utf8ByteSize < 2 ^ 31

instance (k : String) : Decidable (IsKey k) := inferInstanceAs (Decidable (_ ∧ _))

theorem RoundTrips.run_key (h : RoundTrips pk unpacker) (hk : IsKey k) (bs : List UInt8) :
    unpacker.unpackString.run (xmStoreWriteKey pk k ++ bs) = some (k, bs) := by
  rw [xmStoreWriteKey, hk.1]
  exact h.str k hk.2 bs

theorem RoundTrips.parseInt_uint8 (h : RoundTrips pk unpacker) (hk : IsKey k) (v : UInt8) (bs : List UInt8) :
    (parseInt unpacker).run (xmStoreWriteUint8 pk k v ++ bs) = some ((v.toNat : Int), bs) := by
  rw [parseInt, StateT.run_bind, xmStoreWriteUint8, List.append_assoc, h.run_key hk]
  exact h.uint8 v bs

theorem RoundTrips.parseInt_uint16 (h : RoundTrips pk unpacker) (hk : IsKey k) (v : UInt16) (bs : List UInt8) :
    (parseInt unpacker).run (xmStoreWriteUint16 pk k v ++ bs) = some ((v.toNat : Int), bs) := by
  rw [parseInt, StateT.run_bind, xmStoreWriteUint16, List.append_assoc, h.run_key hk]
  exact h.uint16 v bs

theorem RoundTrips.parseLong_uint32 (h : RoundTrips pk unpacker) (hk : IsKey k) (v : UInt32) (bs : List UInt8) :
    (parseLong unpacker).run (xmStoreWriteUint32 pk k v ++ bs) = some ((v.toNat : Int), bs) := by
  rw [parseLong, StateT.run_bind, xmStoreWriteUint32, List.append_assoc, h.run_key hk]
  exact h.uint32 v bs

theorem RoundTrips.parseLong_uint64 (h : RoundTrips pk unpacker) (hk : IsKey k) {v : UInt64}
    (hv : v.toNat < 2 ^ 63) (bs : List UInt8) :
    (parseLong unpacker).run (xmStoreWriteUint64 pk k v ++ bs) = some ((v.toNat : Int), bs) := by
  rw [parseLong, StateT.run_bind, xmStoreWriteUint64, List.append_assoc, h.run_key hk]
  exact h.uint64 v hv bs

theorem RoundTrips.parseText_kv (h : RoundTrips pk unpacker) {v : String} (hk : k.utf8ByteSize < 2 ^ 31)
    (hv : v.utf8ByteSize < 2 ^ 31)
    (bs : List UInt8) : (parseText unpacker).run (xmStoreWriteKv pk k v ++ bs) = some (v, bs) := by
  rw [parseText, StateT.run_bind, xmStoreWriteKv, List.append_assoc, xmStoreWriteStr, h.str k hk]
  exact h.str v hv bs

theorem RoundTrips.parseMapHeader_named (h : RoundTrips pk unpacker) (hk : IsKey k) {n : Nat} (hn : n < 2 ^ 31)
    (bs : List UInt8) :
    (parseMapHeader unpacker true).run (xmStoreMapStart pk k n ++ bs) = some ((n : Int), bs) := by
  have hrun : (parseMapHeader unpacker true) =
      unpacker.unpackString >>= fun _ => unpacker.unpackMapHeader := by
    simp [parseMapHeader]
  rw [hrun, StateT.run_bind, xmStoreMapStart, List.append_assoc, h.run_key hk]
  exact h.map n hn bs

theorem RoundTrips.parseMapHeader_unnamed (h : RoundTrips pk unpacker) {n : Nat} (hn : n < 2 ^ 31) (bs : List UInt8) :
    (parseMapHeader unpacker false).run (xmStoreMapStart pk "" n ++ bs) = some ((n : Int), bs) := by
  have hrun : (parseMapHeader unpacker false) = unpacker.unpackMapHeader := by
    simp [parseMapHeader]
  rw [hrun]
  exact h.map n hn bs

/-! ## The entry of a packet -/

/-- The entry of the IP header at `ip`, for a type of probes. -/
def ipEntry (probeType : UInt8) (m : Mem) (ip : Nat) : IPScanEntry where
  type := probeType.toNat
  srcIP := (ipSrc m ip).toNat
  dstIP := (ipDst m ip).toNat
  ttl := (ipTtl m ip).toNat
  id := (ntohs (ipId m ip)).toNat

def tcpEntry (ip : IPScanEntry) (m : Mem) (tcp : Nat) (success : Bool) (msg : String) :
    TCPSYNScanEntry where
  toIPScanEntry := ip
  srcPort := (ntohs (thSport m tcp)).toNat
  dstPort := (ntohs (thDport m tcp)).toNat
  seq := (ntohl (thSeq m tcp)).toNat
  ack := (ntohl (thAck m tcp)).toNat
  window := (ntohs (thWin m tcp)).toNat
  success := success
  msg := msg

def icmpEntry (ip : IPScanEntry) (m : Mem) (icmp : Nat) : ICMPScanEntry where
  ip := ip
  success := icmpType m icmp == ICMP_ECHOREPLY
  msg := (icmpResult (icmpType m icmp)).2
  type := (icmpType m icmp).toNat
  code := (icmpCode m icmp).toNat
  id := (ntohs (icmpId m icmp)).toNat
  seq := (ntohs (icmpSeq m icmp)).toNat

def icmpTimeEntry (ip : IPScanEntry) (m : Mem) (icmp : Nat) : ICMPTimeScanEntry where
  toICMPScanEntry := icmpEntry ip m icmp
  sentTimeTS := (load32 m (icmp + 8)).toNat
  sentTimeUS := (load32 m (icmp + 12)).toNat
  dstRawIP := (load32 m (icmp + 16)).toNat

theorem RoundTrips.newIPScanEntry_run (h : RoundTrips pk unpacker) (probeType : UInt8) (m : Mem)
    (ip : Nat) (bs : List UInt8) :
    (newIPScanEntry unpacker).run (xmProbeIpStore pk probeType m ip ++ bs) =
      some (ipEntry probeType m ip, bs) := by
  simp only [newIPScanEntry, xmProbeIpStore, List.append_assoc, StateT.run_bind,
    h.parseMapHeader_unnamed (show 3 < 2 ^ 31 by decide), Option.bind_eq_bind, Option.bind_some,
    h.parseInt_uint8 (show IsKey "type" by decide),
    h.parseMapHeader_named (show IsKey "ip" by decide) (show 4 < 2 ^ 31 by decide),
    h.parseLong_uint32 (show IsKey "srcIP" by decide),
    h.parseLong_uint32 (show IsKey "dstIP" by decide),
    h.parseLong_uint32 (show IsKey "ipid" by decide),
    h.parseLong_uint32 (show IsKey "ttl" by decide), UInt16.toNat_toUInt32, UInt8.toNat_toUInt32]
  rfl

theorem eq_one_iff (success : UInt8) : ((success.toNat : Int) == 1) = (success == 1) := by
  rw [Bool.eq_iff_iff, beq_iff_eq, beq_iff_eq, ← UInt8.toNat_inj]
  exact Int.ofNat_inj

theorem RoundTrips.newTCPSYNScanEntry_run (h : RoundTrips pk unpacker) (probeType : UInt8)
    (m m' : Mem) (ip tcp : Nat) (success : UInt8) {msg : String} (hmsg : msg.utf8ByteSize < 2 ^ 31) :
    (newTCPSYNScanEntry unpacker).run
        (xmProbeIpStore pk probeType m ip ++ tcpStore pk m' tcp success msg) =
      some (tcpEntry (ipEntry probeType m ip) m' tcp (success == 1) msg, []) := by
  rw [← List.append_nil (tcpStore pk m' tcp success msg)]
  simp only [newTCPSYNScanEntry, tcpStore, List.append_assoc, StateT.run_bind, h.newIPScanEntry_run,
    Option.bind_eq_bind, Option.bind_some,
    h.parseMapHeader_named (show IsKey "tcp" by decide) (show 7 < 2 ^ 31 by decide),
    h.parseInt_uint8 (show IsKey "success" by decide),
    h.parseText_kv (show "msg".utf8ByteSize < 2 ^ 31 by decide) hmsg,
    h.parseInt_uint16 (show IsKey "sport" by decide),
    h.parseInt_uint16 (show IsKey "dport" by decide),
    h.parseLong_uint32 (show IsKey "seqnum" by decide),
    h.parseLong_uint32 (show IsKey "acknum" by decide),
    h.parseLong_uint32 (show IsKey "window" by decide), UInt16.toNat_toUInt32, eq_one_iff]
  rfl

theorem icmpResult_msg (type : UInt8) : (icmpResult type).2.utf8ByteSize < 2 ^ 31 := by
  unfold icmpResult
  repeat' split
  all_goals decide

theorem icmpResult_success (type : UInt8) :
    ((icmpResult type).1 == 1) = (type == ICMP_ECHOREPLY) := by
  unfold icmpResult
  split
  · next h => simp [h]
  · next h =>
    rw [beq_eq_false_iff_ne.mpr h]
    repeat' split
    all_goals rfl

theorem RoundTrips.newICMPScanEntry_run (h : RoundTrips pk unpacker) (probeType : UInt8)
    (m m' : Mem) (ip icmp : Nat) {name : String} (hname : IsKey name) {n : Nat} (hn : n < 2 ^ 31)
    (bs : List UInt8) :
    (newICMPScanEntry unpacker).run
        (xmProbeIpStore pk probeType m ip ++ (icmpStore pk name n m' icmp ++ bs)) =
      some (icmpEntry (ipEntry probeType m ip) m' icmp, bs) := by
  simp only [newICMPScanEntry, icmpStore, List.append_assoc, StateT.run_bind, h.newIPScanEntry_run,
    Option.bind_eq_bind, Option.bind_some, h.parseMapHeader_named hname hn,
    h.parseInt_uint8 (show IsKey "success" by decide),
    h.parseText_kv (show "msg".utf8ByteSize < 2 ^ 31 by decide) (icmpResult_msg _),
    h.parseInt_uint8 (show IsKey "type" by decide),
    h.parseInt_uint8 (show IsKey "code" by decide),
    h.parseLong_uint32 (show IsKey "id" by decide),
    h.parseLong_uint32 (show IsKey "seq" by decide), UInt16.toNat_toUInt32, eq_one_iff,
    icmpResult_success]
  rfl

theorem RoundTrips.newICMPTimeScanEntry_run (h : RoundTrips pk unpacker) (probeType : UInt8)
    (m m' : Mem) (ip : Nat) (len : UInt32) (validation : Validation) (pbuf : Nat) :
    (newICMPTimeScanEntry unpacker).run
        (xmProbeIpStore pk probeType m ip ++ icmpTimeProbeProcessPacket pk m' pbuf len validation) =
      some (icmpTimeEntry (ipEntry probeType m ip) m' (icmpOfPacket m' (ipHeader pbuf)), []) := by
  have hlong : ∀ v : UInt32, v.toUInt64.toNat < 2 ^ 63 := by
    intro v
    have := v.toNat_lt
    rw [UInt32.toNat_toUInt64]
    omega
  rw [← List.append_nil (icmpTimeProbeProcessPacket pk m' pbuf len validation)]
  simp only [newICMPTimeScanEntry, icmpTimeProbeProcessPacket, List.append_assoc, StateT.run_bind,
    h.newICMPScanEntry_run _ _ _ _ _ (show IsKey "icmpTime" by decide) (show 9 < 2 ^ 31 by decide),
    Option.bind_eq_bind, Option.bind_some,
    h.parseLong_uint64 (show IsKey "sentTimestampTS" by decide) (hlong _),
    h.parseLong_uint64 (show IsKey "sentTimestampUS" by decide) (hlong _),
    h.parseLong_uint64 (show IsKey "dstRaw" by decide) (hlong _), UInt32.toNat_toUInt64]
  rfl

theorem RoundTrips.parse_tcp (h : RoundTrips pk unpacker) (m m' : Mem) (ip tcp : Nat)
    (success : UInt8) {msg : String} (hmsg : msg.utf8ByteSize < 2 ^ 31) :
    parse unpacker ⟨PROBE_TCP_SYN,
        xmProbeIpStore pk PROBE_TCP_SYN m ip ++ tcpStore pk m' tcp success msg⟩ =
      some (some (.tcpSyn (tcpEntry (ipEntry PROBE_TCP_SYN m ip) m' tcp (success == 1) msg)), []) := by
  have hrun := h.newTCPSYNScanEntry_run PROBE_TCP_SYN m m' ip tcp success hmsg
  rw [parse, if_pos (show PROBE_TCP_SYN = TCPSYNSCAN from rfl), StateT.run_map, StateT.run_map, hrun]
  rfl

theorem RoundTrips.parse_icmp (h : RoundTrips pk unpacker) (m m' : Mem) (ip icmp : Nat) :
    parse unpacker ⟨PROBE_ICMP_ECHO,
        xmProbeIpStore pk PROBE_ICMP_ECHO m ip ++ icmpStore pk "icmp" 6 m' icmp⟩ =
      some (some (.icmp (icmpEntry (ipEntry PROBE_ICMP_ECHO m ip) m' icmp)), []) := by
  have hrun := h.newICMPScanEntry_run PROBE_ICMP_ECHO m m' ip icmp (show IsKey "icmp" by decide)
    (show 6 < 2 ^ 31 by decide) []
  rw [List.append_nil] at hrun
  rw [parse, if_neg (show PROBE_ICMP_ECHO ≠ TCPSYNSCAN by decide),
    if_pos (show PROBE_ICMP_ECHO = ICMPSCAN from rfl), StateT.run_map, StateT.run_map, hrun]
  rfl

theorem RoundTrips.parse_icmpTime (h : RoundTrips pk unpacker) (m m' : Mem) (ip pbuf : Nat)
    (len : UInt32) (validation : Validation) :
    parse unpacker ⟨PROBE_ICMP_ECHO_TIME, xmProbeIpStore pk PROBE_ICMP_ECHO_TIME m ip ++
        icmpTimeProbeProcessPacket pk m' pbuf len validation⟩ =
      some (some (.icmpTime (icmpTimeEntry (ipEntry PROBE_ICMP_ECHO_TIME m ip) m'
        (icmpOfPacket m' (ipHeader pbuf)))), []) := by
  have hrun := h.newICMPTimeScanEntry_run PROBE_ICMP_ECHO_TIME m m' ip len validation pbuf
  rw [parse, if_neg (show PROBE_ICMP_ECHO_TIME ≠ TCPSYNSCAN by decide),
    if_neg (show PROBE_ICMP_ECHO_TIME ≠ ICMPSCAN by decide),
    if_pos (show PROBE_ICMP_ECHO_TIME = ICMPTIMESCAN from rfl), StateT.run_map, StateT.run_map, hrun]
  rfl

end

/-! ## The packet that is processed -/

section
variable {m m' : Mem} {a b : Nat}

/-- The two memories hold the same bytes from `a` up to `b`. -/
def Agree (m m' : Mem) (a b : Nat) : Prop := ∀ i, a ≤ i → i < b → m i = m' i

theorem Agree.mono (h : Agree m m' a b) {c d : Nat} (hc : a ≤ c) (hd : d ≤ b) : Agree m m' c d :=
  fun i hi hj => h i (hc.trans hi) (lt_of_lt_of_le hj hd)

theorem Agree.load16 (h : Agree m m' a b) {i : Nat} (hi : a ≤ i) (hj : i + 2 ≤ b) :
    load16 m i = load16 m' i :=
  load16_congr fun j _ => h (i + j) (by omega) (by omega)

theorem Agree.load32 (h : Agree m m' a b) {i : Nat} (hi : a ≤ i) (hj : i + 4 ≤ b) :
    load32 m i = load32 m' i :=
  load32_congr fun j _ => h (i + j) (by omega) (by omega)

theorem Agree.ipHl (h : Agree m m' a b) (hb : a < b) : ipHl m a = ipHl m' a := by
  rw [Probe.ipHl, Probe.ipHl, h a le_rfl hb]

theorem Agree.thFlags (h : Agree m m' a (a + 20)) : thFlags m a = thFlags m' a :=
  h (a + 13) (by omega) (by omega)

theorem Agree.tcpEntry (h : Agree m m' a (a + 20)) (ip : IPScanEntry) (success : Bool)
    (msg : String) : tcpEntry ip m a success msg = tcpEntry ip m' a success msg := by
  simp (disch := omega) only [Api.tcpEntry, thSport, thDport, thSeq, thAck, thWin, h.load16, h.load32]

theorem Agree.icmpEntry (h : Agree m m' a (a + 8)) (ip : IPScanEntry) :
    icmpEntry ip m a = icmpEntry ip m' a := by
  simp (disch := omega) only [Api.icmpEntry, icmpType, icmpCode, icmpId, icmpSeq, h.load16, h _]

theorem Agree.icmpTimeEntry (h : Agree m m' a (a + 20)) (ip : IPScanEntry) :
    icmpTimeEntry ip m a = icmpTimeEntry ip m' a := by
  have hicmp : Agree m m' a (a + 8) := h.mono le_rfl (by omega)
  simp (disch := omega) only [Api.icmpTimeEntry, hicmp.icmpEntry, h.load32]

end

section
variable {context : RecvContext} {f : Frame}

/-- The probe module sees the bytes of the packet, up to the last one that it can store. -/
theorem processedPacket_agree (hlink : context.dataLinkSize = sizeofEtherHeader) {b : Nat}
    (hb : b ≤ f.pktLen) (hmax : b ≤ 65535) :
    Agree (processedPacket context f).1 f.pktData sizeofEtherHeader b := by
  intro i hi hj
  rw [sizeofEtherHeader] at hi
  unfold processedPacket
  split
  · have hread : (f.pktData.read 14 (min f.pktLen 65535)).length = min f.pktLen 65535 :=
      Mem.length_read
    have hlt : i - 14 < min f.pktLen 65535 := by omega
    simp only [hlink, sizeofEtherHeader, Mem.write, hread]
    rw [if_pos (by omega), Mem.read, List.getD_eq_getElem?_getD]
    simp [hlt, Nat.add_sub_cancel' hi]
  · rfl

end

/-! ## Records -/

/-- The probe modules. -/
inductive ProbeModule where
  | tcpSynscan
  | tcpSynackscan
  | icmpEcho
  | icmpEchoTime
deriving DecidableEq, Repr

namespace ProbeModule

def probe : ProbeModule → ProbeContext → XmProbe
  | tcpSynscan => probeTcpSynscan
  | tcpSynackscan => probeTcpSynackscan
  | icmpEcho => probeIcmpEcho
  | icmpEchoTime => probeIcmpEchoTime

/-- The bytes behind the IP header that the module stores fields of. -/
def fieldsSize : ProbeModule → Nat
  | tcpSynscan => 20
  | tcpSynackscan => 20
  | icmpEcho => 8
  | icmpEchoTime => 20

/-- The entry of the packet at `ip`. -/
def entry (k : ProbeModule) (m : Mem) (ip : Nat) : SourceEntry :=
  let header := ip + 4 * ipHl m ip
  let rst := thFlags m header &&& TH_RST ≠ 0
  match k with
  | tcpSynscan =>
    .tcpSyn (tcpEntry (ipEntry PROBE_TCP_SYN m ip) m header (!rst) (if rst then "rst" else "synacn"))
  | tcpSynackscan =>
    .tcpSyn (tcpEntry (ipEntry PROBE_TCP_SYN m ip) m header true (if rst then "rst" else "synack"))
  | icmpEcho => .icmp (icmpEntry (ipEntry PROBE_ICMP_ECHO m ip) m header)
  | icmpEchoTime => .icmpTime (icmpTimeEntry (ipEntry PROBE_ICMP_ECHO_TIME m ip) m header)

end ProbeModule

/-- The reader parses the record of a packet that holds the stored fields to the entry of the packet, and
leaves nothing. -/
theorem parse_packedRecord {context : RecvContext} {unpacker : MessageUnpacker}
    (htrips : RoundTrips context.packer unpacker) (k : ProbeModule) (g : ProbeContext)
    (hprobe : context.probe = k.probe g) (hlink : context.dataLinkSize = sizeofEtherHeader) {f : Frame}
    (hlong : sizeofEtherHeader + 4 * ipHl f.pktData sizeofEtherHeader + k.fieldsSize ≤ f.pktLen)
    (validation : Validation) :
    parse unpacker (packedRecord context f validation) =
      some (some (k.entry f.pktData sizeofEtherHeader), []) := by
  have hhl : ipHl f.pktData sizeofEtherHeader < 16 := Nat.mod_lt _ (by decide)
  have hsize : 0 < k.fieldsSize ∧ k.fieldsSize ≤ 20 := by cases k <;> decide
  have hmax : sizeofEtherHeader + 4 * ipHl f.pktData sizeofEtherHeader + k.fieldsSize ≤ 65535 := by
    rw [sizeofEtherHeader] at hhl ⊢
    omega
  have hagree := processedPacket_agree hlink hlong hmax
  have hheader : ipHl (processedPacket context f).1 sizeofEtherHeader =
      ipHl f.pktData sizeofEtherHeader := hagree.ipHl (by omega)
  have hfields : Agree (processedPacket context f).1 f.pktData
      (sizeofEtherHeader + 4 * ipHl f.pktData sizeofEtherHeader)
      (sizeofEtherHeader + 4 * ipHl f.pktData sizeofEtherHeader + k.fieldsSize) :=
    hagree.mono (by omega) le_rfl
  rw [packedRecord, hprobe, hlink]
  generalize (processedPacket context f).1 = m' at hagree hheader hfields ⊢
  have hip : ipHeader 0 = sizeofEtherHeader := rfl
  cases k with
  | tcpSynscan =>
    have hflags := hfields.thFlags
    simp only [ProbeModule.probe, probeTcpSynscan, ProbeModule.entry, synscanProbeProcessPacket,
      tcpOfPacket, hip, hheader, hflags]
    split
    · next hrst =>
      rw [htrips.parse_tcp _ _ _ _ _ (by decide), hfields.tcpEntry, decide_eq_true hrst]
      rfl
    · next hrst =>
      rw [htrips.parse_tcp _ _ _ _ _ (by decide), hfields.tcpEntry, decide_eq_false hrst]
      rfl
  | tcpSynackscan =>
    have hflags := hfields.thFlags
    simp only [ProbeModule.probe, probeTcpSynackscan, ProbeModule.entry, synackscanProbeProcessPacket,
      tcpOfPacket, hip, hheader, hflags]
    split
    · rw [htrips.parse_tcp _ _ _ _ _ (by decide), hfields.tcpEntry]
      rfl
    · rw [htrips.parse_tcp _ _ _ _ _ (by decide), hfields.tcpEntry]
      rfl
  | icmpEcho =>
    simp only [ProbeModule.probe, probeIcmpEcho, ProbeModule.entry, icmpProbeProcessPacket,
      icmpOfPacket, hip, hheader]
    rw [htrips.parse_icmp, hfields.icmpEntry]
  | icmpEchoTime =>
    simp only [ProbeModule.probe, probeIcmpEchoTime, ProbeModule.entry]
    rw [htrips.parse_icmpTime, icmpOfPacket, hip, hheader, hfields.icmpTimeEntry]

/-- The reset of a host. -/
def resetFrame : Frame := frameOf (tcpAnswer 2 (TH_RST ||| TH_ACK))

theorem parse_packedRecord_reset :
    parse messageUnpacker (packedRecord (portScan 0) resetFrame fun _ => 0) =
      some (some (ProbeModule.tcpSynscan.entry resetFrame.pktData sizeofEtherHeader), []) :=
  have htrips : RoundTrips (portScan 0).packer messageUnpacker := messageUnpacker_roundTrips
  have hlong : sizeofEtherHeader + 4 * ipHl resetFrame.pktData sizeofEtherHeader +
      ProbeModule.tcpSynscan.fieldsSize ≤ resetFrame.pktLen := by decide +kernel
  parse_packedRecord htrips .tcpSynscan ⟨80, 1000, 1000, 1, fun _ _ _ => 0⟩ rfl rfl hlong fun _ => 0

example : ProbeModule.tcpSynscan.entry resetFrame.pktData sizeofEtherHeader =
    .tcpSyn ⟨⟨1, 0x0200000A, 0x0100000A, 64, 7⟩, 80, 1000, 0, 1, 0, false, "rst"⟩ := by
  decide +kernel

end Xmap.Api
