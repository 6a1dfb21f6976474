import Xmap.Probe.Packet

/-!
# Building headers (`xm_packet`)
-/

namespace Xmap.Probe

open Xmap.Lib

def MAX_PACKET_SIZE : Nat := 4096
def MAXTTL : UInt8 := 255
def ETHERTYPE_IP : UInt16 := 0x0800
def ICMP_ECHO : UInt8 := 8

/-! ## Checksums -/

/-- The sum of `n` words of 16 bits. -/
def sumWords (m : Mem) (a n : Nat) : Nat := ((List.range n).map fun i => (load16 m (a + 2 * i)).toNat).sum

/-- The sum is folded twice and complemented. -/
def foldSum (sum : Nat) : UInt16 :=
  let sum := sum / 2 ^ 16 + sum % 2 ^ 16
  let sum := sum + sum / 2 ^ 16
  ~~~ UInt16.ofNat sum

def xmInChecksum (m : Mem) (a len : Nat) : UInt16 := foldSum (sumWords m a (len / 2))

def xmIpChecksum (m : Mem) (ip : Nat) : UInt16 := xmInChecksum m ip sizeofIp

def xmIcmpChecksum (m : Mem) (icmp : Nat) : UInt16 := xmInChecksum m icmp sizeofIcmp

def xmTcpChecksum (lenTcp : UInt16) (saddr daddr : UInt32) (m : Mem) (tcp : Nat) : UInt16 :=
  let len := lenTcp.toNat
  let sum := sumWords m tcp (len / 2) +
    (if len % 2 = 1 then (load16 m (tcp + (len - 1)) &&& ntohs 0xFF00).toNat else 0)
  let pseudo := saddr.toNat % 2 ^ 16 + saddr.toNat / 2 ^ 16 + daddr.toNat % 2 ^ 16 +
    daddr.toNat / 2 ^ 16 + (htons lenTcp).toNat + (htons 6).toNat
  foldSum (sum + pseudo)

/-! ## Headers -/

def xmMakeEthHeader (m : Mem) (eth : Nat) (src dst : List UInt8) : Mem :=
  let m := m.write (eth + 6) (src.take 6)
  let m := m.write eth (dst.take 6)
  store16 m (eth + 12) (htons ETHERTYPE_IP)

def xmMakeIpHeader (m : Mem) (iph : Nat) (protocol : UInt8) (len : UInt16) : Mem :=
  let m := store8 m iph 0x45
  let m := store8 m (iph + 1) 0
  let m := store16 m (iph + 2) len
  let m := store16 m (iph + 4) (htons 54321)
  let m := store16 m (iph + 6) 0
  let m := store8 m (iph + 8) MAXTTL
  let m := store8 m (iph + 9) protocol
  store16 m (iph + 10) 0

def xmMakeIcmpHeader (m : Mem) (icmp : Nat) : Mem :=
  let m := store8 m icmp ICMP_ECHO
  let m := store8 m (icmp + 1) 0
  store16 m (icmp + 6) 0

/-- `random` is what `random()` returns. -/
def xmMakeTcpHeader (m : Mem) (tcp : Nat) (destPort : UInt16) (thFlags : UInt16) (random : UInt32) :
    Mem :=
  let m := store32 m (tcp + 4) random
  let m := store32 m (tcp + 8) 0
  let m := store8 m (tcp + 12) 0x50
  let m := store8 m (tcp + 13) thFlags.toUInt8
  let m := store16 m (tcp + 14) (htons 65535)
  let m := store16 m (tcp + 16) 0
  let m := store16 m (tcp + 18) 0
  store16 m (tcp + 2) (htons destPort)

end Xmap.Probe
