import Xmap.Lib.Bytes

/-!
# Packets (`xm_packet`)

Headers are read and written through pointers, here addresses in a memory. The host is little-endian: a
field in network order is loaded with its bytes swapped.
-/

namespace Xmap.Probe

open Xmap.Lib

def load16 (m : Mem) (a : Nat) : UInt16 := UInt16.ofNat (m.loadLE 2 a)

def load32 (m : Mem) (a : Nat) : UInt32 := UInt32.ofNat (m.loadLE 4 a)

def store8 (m : Mem) (a : Nat) (v : UInt8) : Mem := m.write a [v]

def store16 (m : Mem) (a : Nat) (v : UInt16) : Mem := m.storeLE 2 a v.toNat

def store32 (m : Mem) (a : Nat) (v : UInt32) : Mem := m.storeLE 4 a v.toNat

def ntohs (v : UInt16) : UInt16 := UInt16.ofNat (swap 2 v.toNat)

def htons (v : UInt16) : UInt16 := ntohs v

def ntohl (v : UInt32) : UInt32 := UInt32.ofNat (swap 4 v.toNat)

def htonl (v : UInt32) : UInt32 := ntohl v

section
variable {m p : Mem} {a b : Nat}

@[simp] theorem ntohs_ntohs (v : UInt16) : ntohs (ntohs v) = v := by
  refine UInt16.toNat_inj.mp ?_
  have hv : v.toNat < 2 ^ (8 * 2) := v.toNat_lt
  have hs : swap 2 v.toNat < 2 ^ (8 * 2) := swap_lt 2 v.toNat
  rw [ntohs, ntohs, UInt16.toNat_ofNat', UInt16.toNat_ofNat', Nat.mod_eq_of_lt hs, swap_swap hv,
    Nat.mod_eq_of_lt hv]

@[simp] theorem ntohl_ntohl (v : UInt32) : ntohl (ntohl v) = v := by
  refine UInt32.toNat_inj.mp ?_
  have hv : v.toNat < 2 ^ (8 * 4) := v.toNat_lt
  have hs : swap 4 v.toNat < 2 ^ (8 * 4) := swap_lt 4 v.toNat
  rw [ntohl, ntohl, UInt32.toNat_ofNat', UInt32.toNat_ofNat', Nat.mod_eq_of_lt hs, swap_swap hv,
    Nat.mod_eq_of_lt hv]

theorem ntohl_injective : Function.Injective ntohl := Function.LeftInverse.injective ntohl_ntohl

@[simp] theorem load16_store16 (v : UInt16) : load16 (store16 m a v) a = v := by
  have hv : v.toNat < 2 ^ (8 * 2) := v.toNat_lt
  rw [load16, store16, Mem.loadLE_storeLE, Nat.mod_eq_of_lt hv, UInt16.ofNat_toNat]

@[simp] theorem load32_store32 (v : UInt32) : load32 (store32 m a v) a = v := by
  have hv : v.toNat < 2 ^ (8 * 4) := v.toNat_lt
  rw [load32, store32, Mem.loadLE_storeLE, Nat.mod_eq_of_lt hv, UInt32.ofNat_toNat]

@[simp] theorem store8_self (v : UInt8) : store8 m a v a = v := by
  simp [store8, Mem.write]

theorem load16_congr (h : ∀ j < 2, m (a + j) = p (b + j)) : load16 m a = load16 p b := by
  have hread : m.read a 2 = p.read b 2 := List.map_congr_left fun j hj => h j (List.mem_range.mp hj)
  rw [load16, load16, Mem.loadLE, Mem.loadLE, hread]

theorem load32_congr (h : ∀ j < 4, m (a + j) = p (b + j)) : load32 m a = load32 p b := by
  have hread : m.read a 4 = p.read b 4 := List.map_congr_left fun j hj => h j (List.mem_range.mp hj)
  rw [load32, load32, Mem.loadLE, Mem.loadLE, hread]

/-! ## Stores do not meet loads elsewhere -/

theorem store8_of_ne {i : Nat} (v : UInt8) (h : i ≠ b) : store8 m b v i = m i := by
  rw [store8, Mem.write, if_neg]
  rw [List.length_singleton]
  omega

theorem store16_of_disjoint {i : Nat} (v : UInt16) (h : i < b ∨ b + 2 ≤ i) :
    store16 m b v i = m i := Mem.storeLE_apply_of_disjoint h

theorem store32_of_disjoint {i : Nat} (v : UInt32) (h : i < b ∨ b + 4 ≤ i) :
    store32 m b v i = m i := Mem.storeLE_apply_of_disjoint h

theorem load16_store8_of_disjoint (v : UInt8) (h : a + 2 ≤ b ∨ b + 1 ≤ a) :
    load16 (store8 m b v) a = load16 m a := by
  rw [load16, load16, Mem.loadLE, Mem.loadLE, store8, Mem.read_write_of_disjoint h]

theorem load32_store8_of_disjoint (v : UInt8) (h : a + 4 ≤ b ∨ b + 1 ≤ a) :
    load32 (store8 m b v) a = load32 m a := by
  rw [load32, load32, Mem.loadLE, Mem.loadLE, store8, Mem.read_write_of_disjoint h]

theorem load16_store16_of_disjoint (v : UInt16) (h : a + 2 ≤ b ∨ b + 2 ≤ a) :
    load16 (store16 m b v) a = load16 m a := by
  rw [load16, load16, store16, Mem.loadLE_storeLE_of_disjoint h]

theorem load16_store32_of_disjoint (v : UInt32) (h : a + 2 ≤ b ∨ b + 4 ≤ a) :
    load16 (store32 m b v) a = load16 m a := by
  rw [load16, load16, store32, Mem.loadLE_storeLE_of_disjoint h]

theorem load32_store16_of_disjoint (v : UInt16) (h : a + 4 ≤ b ∨ b + 2 ≤ a) :
    load32 (store16 m b v) a = load32 m a := by
  rw [load32, load32, store16, Mem.loadLE_storeLE_of_disjoint h]

theorem load32_store32_of_disjoint (v : UInt32) (h : a + 4 ≤ b ∨ b + 4 ≤ a) :
    load32 (store32 m b v) a = load32 m a := by
  rw [load32, load32, store32, Mem.loadLE_storeLE_of_disjoint h]

end

/-! ## Header fields -/

def ipHl (m : Mem) (ip : Nat) : Nat := (m ip).toNat % 16
def ipId (m : Mem) (ip : Nat) : UInt16 := load16 m (ip + 4)
def ipOff (m : Mem) (ip : Nat) : UInt16 := load16 m (ip + 6)
def ipTtl (m : Mem) (ip : Nat) : UInt8 := m (ip + 8)
def ipP (m : Mem) (ip : Nat) : UInt8 := m (ip + 9)
def ipSrc (m : Mem) (ip : Nat) : UInt32 := load32 m (ip + 12)
def ipDst (m : Mem) (ip : Nat) : UInt32 := load32 m (ip + 16)

def thSport (m : Mem) (tcp : Nat) : UInt16 := load16 m tcp
def thDport (m : Mem) (tcp : Nat) : UInt16 := load16 m (tcp + 2)
def thSeq (m : Mem) (tcp : Nat) : UInt32 := load32 m (tcp + 4)
def thAck (m : Mem) (tcp : Nat) : UInt32 := load32 m (tcp + 8)
def thFlags (m : Mem) (tcp : Nat) : UInt8 := m (tcp + 13)
def thWin (m : Mem) (tcp : Nat) : UInt16 := load16 m (tcp + 14)

def icmpType (m : Mem) (icmp : Nat) : UInt8 := m icmp
def icmpCode (m : Mem) (icmp : Nat) : UInt8 := m (icmp + 1)
def icmpId (m : Mem) (icmp : Nat) : UInt16 := load16 m (icmp + 4)
def icmpSeq (m : Mem) (icmp : Nat) : UInt16 := load16 m (icmp + 6)

def sizeofEtherHeader : Nat := 14
def sizeofIp : Nat := 20
def sizeofTcphdr : Nat := 20
def sizeofIcmp : Nat := 28

def IPPROTO_ICMP : UInt8 := 1
def IPPROTO_TCP : UInt8 := 6
def IP_MF : UInt16 := 0x2000
def TH_SYN : UInt8 := 0x02
def TH_RST : UInt8 := 0x04
def TH_ACK : UInt8 := 0x10

end Xmap.Probe
