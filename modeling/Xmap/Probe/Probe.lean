import Xmap.Lib.Msgpack
import Xmap.Probe.Packet

/-!
# Probe modules and what they store (`xm_probe`, `xm_store`)

A probe module checks received packets and packs their fields. The packer is msgpack's.
-/

namespace Xmap.Probe

open Xmap.Lib

/-- The bytes that msgpack's packer writes for a value. -/
structure MsgpackPacker where
  packMap : Nat → List UInt8
  packStr : String → List UInt8
  packUint8 : UInt8 → List UInt8
  packUint16 : UInt16 → List UInt8
  packUint32 : UInt32 → List UInt8
  packUint64 : UInt64 → List UInt8

/-- The packer that writes every value in its shortest form. -/
def msgpackPacker : MsgpackPacker where
  packMap := Msgpack.packMap
  packStr := Msgpack.packStr
  packUint8 v := Msgpack.packUint v.toNat
  packUint16 v := Msgpack.packUint v.toNat
  packUint32 v := Msgpack.packUint v.toNat
  packUint64 v := Msgpack.packUint v.toNat

/-! ## Writing values (`xm_store.h`) -/

section
variable (pk : MsgpackPacker)

def xmStoreWriteStr (str : String) : List UInt8 := pk.packStr str

/-- The key in front of a value, unless it is empty. -/
def xmStoreWriteKey (k : String) : List UInt8 := if k.isEmpty then [] else xmStoreWriteStr pk k

def xmStoreMapStart (k : String) (n : Nat) : List UInt8 := xmStoreWriteKey pk k ++ pk.packMap n

def xmStoreWriteKv (k v : String) : List UInt8 := xmStoreWriteStr pk k ++ xmStoreWriteStr pk v

def xmStoreWriteUint8 (k : String) (v : UInt8) : List UInt8 := xmStoreWriteKey pk k ++ pk.packUint8 v

def xmStoreWriteUint16 (k : String) (v : UInt16) : List UInt8 :=
  xmStoreWriteKey pk k ++ pk.packUint16 v

def xmStoreWriteUint32 (k : String) (v : UInt32) : List UInt8 :=
  xmStoreWriteKey pk k ++ pk.packUint32 v

def xmStoreWriteUint64 (k : String) (v : UInt64) : List UInt8 :=
  xmStoreWriteKey pk k ++ pk.packUint64 v

end

/-! ## Probes -/

/-- The words that `xm_validate_gen` makes for two addresses. -/
abbrev Validation := Fin 4 → UInt32

instance validationWords : NeZero 4 := ⟨by decide⟩

/-- The part of `xm_probe_t` that the receiver uses. A packet that is valid comes with its source
address and the validation words, which the check may change. -/
structure XmProbe where
  probeType : UInt8
  probeValidatePacket : Mem → Nat → UInt32 → UInt32 → Validation → Option (UInt32 × Validation)
  probeProcessPacket : MsgpackPacker → Mem → Nat → UInt32 → Validation → List UInt8

def PROBE_TCP_SYN : UInt8 := 1
def PROBE_ICMP_ECHO : UInt8 := 2
def PROBE_ICMP_ECHO_TIME : UInt8 := 3

/-- `xm_probe_ip_store` for the header at `ip`. -/
def xmProbeIpStore (pk : MsgpackPacker) (probeType : UInt8) (m : Mem) (ip : Nat) : List UInt8 :=
  xmStoreMapStart pk "" 3 ++ xmStoreWriteUint8 pk "type" probeType ++
    xmStoreMapStart pk "ip" 4 ++
    xmStoreWriteUint32 pk "srcIP" (ipSrc m ip) ++ xmStoreWriteUint32 pk "dstIP" (ipDst m ip) ++
    xmStoreWriteUint32 pk "ipid" (ntohs (ipId m ip)).toUInt32 ++
    xmStoreWriteUint32 pk "ttl" (ipTtl m ip).toUInt32

end Xmap.Probe
