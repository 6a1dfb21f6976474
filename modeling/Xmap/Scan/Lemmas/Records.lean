import Xmap.Scan.Streams

/-!
# The sizes of records

A record is a few fields with short names, so that its size is never cut to 32 bits.
-/

namespace Xmap.Scan

open Xmap.Lib Xmap.Probe Xmap.Shm Xmap.Task

/-! ## Fields -/

/-- Bytes of at most `n` fields. -/
def Within (n : Nat) (bs : List UInt8) : Prop := bs.length ≤ 42 * n

theorem Within.append {n m : Nat} {as bs : List UInt8} (ha : Within n as) (hb : Within m bs) :
    Within (n + m) (as ++ bs) := by
  unfold Within at *
  rw [List.length_append]
  omega

section
variable {k v : String} {n : Nat}

theorem length_packUint (n : Nat) : (Msgpack.packUint n).length ≤ 9 := by
  unfold Msgpack.packUint
  split_ifs <;> simp

theorem length_packMap (n : Nat) : (Msgpack.packMap n).length ≤ 5 := by
  unfold Msgpack.packMap
  split_ifs <;> simp

theorem length_packStr (s : String) : (Msgpack.packStr s).length ≤ 5 + s.utf8ByteSize := by
  have hheader (n : Nat) : (Msgpack.packStrHeader n).length ≤ 5 := by
    unfold Msgpack.packStrHeader
    split_ifs <;> simp
  have hbytes : (Msgpack.strBytes s).length = s.utf8ByteSize := rfl
  rw [Msgpack.packStr, List.length_append, hbytes]
  exact Nat.add_le_add_right (hheader _) _

/-- A name or a text of the records. -/
def IsShort (s : String) : Prop := s.utf8ByteSize ≤ 16

instance (s : String) : Decidable (IsShort s) := inferInstanceAs (Decidable (_ ≤ _))

theorem length_writeKey (hk : IsShort k) : (xmStoreWriteKey msgpackPacker k).length ≤ 21 := by
  unfold xmStoreWriteKey
  split
  · simp
  · exact (length_packStr k).trans (Nat.add_le_add_left hk 5)

theorem mapStart_within (hk : IsShort k) : Within 1 (xmStoreMapStart msgpackPacker k n) := by
  have hkey := length_writeKey hk
  have hmap : (msgpackPacker.packMap n).length ≤ 5 := length_packMap n
  rw [Within, xmStoreMapStart, List.length_append]
  omega

theorem kv_within (hk : IsShort k) (hv : IsShort v) : Within 1 (xmStoreWriteKv msgpackPacker k v) := by
  have hkey : (xmStoreWriteStr msgpackPacker k).length ≤ 5 + 16 := (length_packStr k).trans (Nat.add_le_add_left hk 5)
  have htext : (xmStoreWriteStr msgpackPacker v).length ≤ 5 + 16 :=
    (length_packStr v).trans (Nat.add_le_add_left hv 5)
  rw [Within, xmStoreWriteKv, List.length_append]
  omega

theorem number_within (hk : IsShort k) (n : Nat) :
    Within 1 (xmStoreWriteKey msgpackPacker k ++ Msgpack.packUint n) := by
  have hkey := length_writeKey hk
  have hnumber := length_packUint n
  rw [Within, List.length_append]
  omega

theorem uint8_within (hk : IsShort k) (x : UInt8) : Within 1 (xmStoreWriteUint8 msgpackPacker k x) :=
  number_within hk x.toNat

theorem uint16_within (hk : IsShort k) (x : UInt16) : Within 1 (xmStoreWriteUint16 msgpackPacker k x) :=
  number_within hk x.toNat

theorem uint32_within (hk : IsShort k) (x : UInt32) : Within 1 (xmStoreWriteUint32 msgpackPacker k x) :=
  number_within hk x.toNat

theorem uint64_within (hk : IsShort k) (x : UInt64) : Within 1 (xmStoreWriteUint64 msgpackPacker k x) :=
  number_within hk x.toNat

end

/-! ## Records -/

section
variable {m : Mem} {ip pbuf a : Nat} {type success : UInt8} {msg : String}

theorem ipStore_within : Within 7 (xmProbeIpStore msgpackPacker type m ip) := by
  unfold xmProbeIpStore
  apply Within.append (n := 6) _ (uint32_within (by decide) _)
  apply Within.append (n := 5) _ (uint32_within (by decide) _)
  apply Within.append (n := 4) _ (uint32_within (by decide) _)
  apply Within.append (n := 3) _ (uint32_within (by decide) _)
  apply Within.append (n := 2) _ (mapStart_within (by decide))
  exact (mapStart_within (by decide)).append (uint8_within (by decide) _)

theorem tcpStore_within (hmsg : IsShort msg) : Within 8 (tcpStore msgpackPacker m a success msg) := by
  unfold tcpStore
  apply Within.append (n := 7) _ (uint32_within (by decide) _)
  apply Within.append (n := 6) _ (uint32_within (by decide) _)
  apply Within.append (n := 5) _ (uint32_within (by decide) _)
  apply Within.append (n := 4) _ (uint16_within (by decide) _)
  apply Within.append (n := 3) _ (uint16_within (by decide) _)
  apply Within.append (n := 2) _ (kv_within (by decide) hmsg)
  exact (mapStart_within (by decide)).append (uint8_within (by decide) _)

theorem icmpResult_short (type : UInt8) : IsShort (icmpResult type).2 := by
  unfold icmpResult
  split_ifs <;> decide

theorem icmpStore_within {name : String} {n : Nat} (hname : IsShort name) :
    Within 7 (icmpStore msgpackPacker name n m a) := by
  unfold icmpStore
  apply Within.append (n := 6) _ (uint32_within (by decide) _)
  apply Within.append (n := 5) _ (uint32_within (by decide) _)
  apply Within.append (n := 4) _ (uint8_within (by decide) _)
  apply Within.append (n := 3) _ (uint8_within (by decide) _)
  apply Within.append (n := 2) _ (kv_within (by decide) (icmpResult_short _))
  exact (mapStart_within hname).append (uint8_within (by decide) _)

theorem icmpTimeProcess_within (len : UInt32) (validation : Validation) :
    Within 10 (icmpTimeProbeProcessPacket msgpackPacker m pbuf len validation) := by
  unfold icmpTimeProbeProcessPacket
  apply Within.append (n := 9) _ (uint64_within (by decide) _)
  apply Within.append (n := 8) _ (uint64_within (by decide) _)
  exact (icmpStore_within (by decide)).append (uint64_within (by decide) _)

theorem processPacket_within (k : ProbeModule) (g : ProbeContext) {len : UInt32} {validation : Validation} :
    Within 10 ((k.probe g).probeProcessPacket msgpackPacker m pbuf len validation) := by
  have hwiden {n : Nat} {bs : List UInt8} (h : Within n bs) (hn : n ≤ 10) : Within 10 bs :=
    Nat.le_trans h (Nat.mul_le_mul_left 42 hn)
  cases k with
  | tcpSynscan =>
    show Within 10 (synscanProbeProcessPacket msgpackPacker m pbuf len validation)
    unfold synscanProbeProcessPacket
    dsimp only
    split
    · exact hwiden (tcpStore_within (by decide)) (by decide)
    · exact hwiden (tcpStore_within (by decide)) (by decide)
  | tcpSynackscan =>
    show Within 10 (synackscanProbeProcessPacket msgpackPacker m pbuf len validation)
    unfold synackscanProbeProcessPacket
    dsimp only
    split
    · exact hwiden (tcpStore_within (by decide)) (by decide)
    · exact hwiden (tcpStore_within (by decide)) (by decide)
  | icmpEcho => exact hwiden (icmpStore_within (by decide)) (by decide)
  | icmpEchoTime => exact icmpTimeProcess_within len validation

theorem packedRecord_within (context : ScanContext) (f : Frame) (validation : Validation) :
    Within 17 (packedRecord context.recv f validation).data :=
  ipStore_within.append (processPacket_within context.probe context.gcontext)

end

end Xmap.Scan
