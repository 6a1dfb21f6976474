import Xmap.Lib.Window
import Xmap.Probe.Probe

/-!
# Source ports (`xm_packet.h`)

A probe is sent from a port that its number and a validation word choose in the port range. An answer is
accepted on some ports of the range. The test compares signed remainders, so it accepts the initial range
up to the port of the last probe.
-/

namespace Xmap.Probe

open Xmap.Lib

/-- An unsigned word stored in an `int32_t`. -/
def toInt32 (v : UInt32) : Int := if v.toNat < 2 ^ 31 then v.toNat else v.toNat - 2 ^ 32

def xmCheckDstPort (port : UInt16) (numPorts : Int) (sourcePortFirst sourcePortLast : UInt16)
    (packetStreams : UInt32) (validation : Validation) : Bool :=
  if port > sourcePortLast ∨ port < sourcePortFirst then false
  else
    let toValidate : Int := (port.toNat : Int) - sourcePortFirst.toNat
    let min : Int := toInt32 (validation 1 % UInt32.ofInt numPorts)
    let max : Int := toInt32 ((validation 1 + packetStreams - 1) % UInt32.ofInt numPorts)
    decide ((max - min).tmod numPorts ≥ (toValidate - min).tmod numPorts)

def xmGetSrcPort (numPorts probeNum : Int) (sourcePortFirst : UInt16) (validation : Validation) :
    UInt16 :=
  (sourcePortFirst.toUInt32 + (validation 1 + UInt32.ofInt probeNum) % UInt32.ofInt numPorts).toUInt16

/-- `num_ports`, as the probe modules compute it. -/
def numPorts (sourcePortFirst sourcePortLast : UInt16) : Int :=
  (sourcePortLast.toNat : Int) - sourcePortFirst.toNat + 1

section
variable {first last : UInt16} {validation : Validation} {n s : Nat}

/-- The number of ports in a range. -/
def portCount (first last : UInt16) : Nat := last.toNat - first.toNat + 1

theorem numPorts_eq (h : first ≤ last) : numPorts first last = (portCount first last : Int) := by
  have hle : first.toNat ≤ last.toNat := UInt16.le_iff_toNat_le.mp h
  rw [numPorts, portCount]
  omega

theorem portCount_le : portCount first last ≤ 65536 := by
  have := last.toNat_lt
  rw [portCount]
  omega

theorem ofInt_toNat (hn : n < 2 ^ 32) : (UInt32.ofInt (n : Int)).toNat = n := by
  have hmod : ((n : Int) % 2 ^ 32).toNat = n := by omega
  rw [UInt32.ofInt, hmod, UInt32.toNat_ofNat', Nat.mod_eq_of_lt hn]

theorem toInt32_of_lt {v : UInt32} (h : v.toNat < 2 ^ 31) : toInt32 v = v.toNat := by
  rw [toInt32, if_pos h]

theorem tmod_sub_of_lt {a b : Nat} (ha : a < n) (hb : b < n) :
    ((a : Int) - b).tmod n = (a : Int) - b := by
  rcases Nat.le_total b a with h | h
  · exact Int.tmod_eq_of_lt (by omega) (by omega)
  · rw [show (a : Int) - b = -((b : Int) - a) by ring, Int.neg_tmod,
      Int.tmod_eq_of_lt (by omega) (by omega)]

theorem xmGetSrcPort_eq (h : first ≤ last) {i : Nat} (hi : i < 2 ^ 32) :
    (xmGetSrcPort (numPorts first last) i first validation).toNat =
      first.toNat + ((validation 1).toNat + i) % 2 ^ 32 % portCount first last := by
  have hle : first.toNat ≤ last.toNat := UInt16.le_iff_toNat_le.mp h
  have hlast := last.toNat_lt
  have hcount : portCount first last ≤ 65536 := portCount_le
  have hmod := Nat.mod_lt (((validation 1).toNat + i) % 2 ^ 32)
    (show 0 < portCount first last from Nat.succ_pos _)
  have hres : ((validation 1 + UInt32.ofInt (i : Int)) % UInt32.ofInt (numPorts first last)).toNat =
      ((validation 1).toNat + i) % 2 ^ 32 % portCount first last := by
    have hnum := ofInt_toNat (n := portCount first last) (by omega)
    rw [UInt32.toNat_mod, UInt32.toNat_add, numPorts_eq h, hnum, ofInt_toNat hi]
  rw [xmGetSrcPort, UInt32.toNat_toUInt16, UInt32.toNat_add, UInt16.toNat_toUInt32, hres]
  generalize ((validation 1).toNat + i) % 2 ^ 32 % portCount first last = k at hmod
  rw [portCount] at hmod
  omega

/-- The test accepts the ports of the range up to that of the last probe. -/
theorem xmCheckDstPort_iff_le (h : first ≤ last) (hs : 0 < s) (hs32 : s < 2 ^ 32) {port : UInt16} :
    xmCheckDstPort port (numPorts first last) first last (UInt32.ofNat s) validation = true ↔
      first ≤ port ∧ port ≤ last ∧ port.toNat - first.toNat ≤
        ((validation 1).toNat + (s - 1)) % 2 ^ 32 % portCount first last := by
  have hle : first.toNat ≤ last.toNat := UInt16.le_iff_toNat_le.mp h
  have hcount : portCount first last ≤ 65536 := portCount_le
  have hpos : 0 < portCount first last := Nat.succ_pos _
  by_cases hout : port > last ∨ port < first
  · rw [xmCheckDstPort, if_pos hout]
    refine iff_of_false nofun fun hin => ?_
    rcases hout with hgt | hlt
    · exact absurd (UInt16.le_iff_toNat_le.mp hin.2.1) (by
        have := UInt16.lt_iff_toNat_lt.mp hgt
        omega)
    · exact absurd (UInt16.le_iff_toNat_le.mp hin.1) (by
        have := UInt16.lt_iff_toNat_lt.mp hlt
        omega)
  · have hfirst : first ≤ port := UInt16.not_lt.mp (not_or.mp hout).2
    have hlast : port ≤ last := UInt16.not_lt.mp (not_or.mp hout).1
    have hfn : first.toNat ≤ port.toNat := UInt16.le_iff_toNat_le.mp hfirst
    have hln : port.toNat ≤ last.toNat := UInt16.le_iff_toNat_le.mp hlast
    have hmin : (validation 1 % UInt32.ofInt (numPorts first last)).toNat =
        (validation 1).toNat % portCount first last := by
      rw [UInt32.toNat_mod, numPorts_eq h, ofInt_toNat (by omega)]
    have hsum : (validation 1 + UInt32.ofNat s - 1).toNat =
        ((validation 1).toNat + (s - 1)) % 2 ^ 32 := by
      have := (validation 1).toNat_lt
      rw [UInt32.toNat_sub, UInt32.toNat_add, UInt32.toNat_ofNat', UInt32.toNat_one]
      omega
    have hmax : ((validation 1 + UInt32.ofNat s - 1) % UInt32.ofInt (numPorts first last)).toNat =
        ((validation 1).toNat + (s - 1)) % 2 ^ 32 % portCount first last := by
      rw [UInt32.toNat_mod, numPorts_eq h, ofInt_toNat (by omega), hsum]
    have hminlt := Nat.mod_lt (validation 1).toNat hpos
    have hmaxlt := Nat.mod_lt (((validation 1).toNat + (s - 1)) % 2 ^ 32) hpos
    have hval : (port.toNat : Int) - first.toNat = ((port.toNat - first.toNat : Nat) : Int) := by
      omega
    have hvallt : port.toNat - first.toNat < portCount first last := by
      rw [portCount]
      omega
    rw [xmCheckDstPort, if_neg hout, decide_eq_true_iff, and_iff_right hfirst, and_iff_right hlast]
    rw [toInt32_of_lt (by omega), toInt32_of_lt (by omega), hmin, hmax, hval, numPorts_eq h,
      tmod_sub_of_lt hmaxlt hminlt, tmod_sub_of_lt hvallt hminlt]
    omega

/-- The words of the probes and the range make the accepted ports those that are used: the words do not
wrap at 2^32 and start at the first port, or go round and end at the last; or those behind the wrap go
round and end at the last port, or reach as far as those before it. -/
def PortsMatch (first last : UInt16) (s : Nat) (validation : Validation) : Prop :=
  let n := portCount first last
  let v := (validation 1).toNat
  if v + s ≤ 2 ^ 32 then (s < n ∧ v % n = 0) ∨ (n ≤ s ∧ (v + s) % n = 0)
  else (n ≤ v + s - 2 ^ 32 ∧ (v + s - 2 ^ 32) % n = 0) ∨
    (v + s - 2 ^ 32 < n ∧ 2 ^ 32 - v ≤ 2 ^ 32 % n ∧ 2 ^ 32 % n ≤ v + s - 2 ^ 32)

theorem windowIsInitial_iff (hs : 0 < s) (hs32 : s < 2 ^ 32) :
    WindowIsInitial (2 ^ 32) (portCount first last) (validation 1).toNat s ↔
      PortsMatch first last s validation := by
  rw [PortsMatch]
  by_cases hw : (validation 1).toNat + s ≤ 2 ^ 32
  · rw [if_pos hw]
    exact windowIsInitial_iff_of_le (Nat.succ_pos _) hs hw
  · rw [if_neg hw]
    exact windowIsInitial_iff_of_lt (Nat.succ_pos _) (validation 1).toNat_lt hs32.le (by omega)

/-- The ports that are accepted are those of the probes if and only if they match so. -/
theorem xmCheckDstPort_exact_iff (h : first ≤ last) (hs : 0 < s) (hs31 : s < 2 ^ 31)
    (validation : Validation) :
    (∀ port : UInt16,
      xmCheckDstPort port (numPorts first last) first last (UInt32.ofNat s) validation = true ↔
        ∃ i : Nat, i < s ∧ port = xmGetSrcPort (numPorts first last) i first validation) ↔
      PortsMatch first last s validation := by
  have hle : first.toNat ≤ last.toNat := UInt16.le_iff_toNat_le.mp h
  have hlast := last.toNat_lt
  have hn : portCount first last = last.toNat - first.toNat + 1 := rfl
  rw [← windowIsInitial_iff hs (by omega)]
  have hsrc : ∀ port : UInt16, first ≤ port → ((∃ i : Nat, i < s ∧
      port = xmGetSrcPort (numPorts first last) i first validation) ↔
      InWindow (2 ^ 32) (portCount first last) (validation 1).toNat s (port.toNat - first.toNat)) := by
    intro port hp
    have hpn : first.toNat ≤ port.toNat := UInt16.le_iff_toNat_le.mp hp
    refine exists_congr fun i => and_congr_right fun hi => ?_
    rw [← UInt16.toNat_inj, xmGetSrcPort_eq h (by omega)]
    omega
  constructor
  · intro hall t ht
    have hport : (UInt16.ofNat (first.toNat + t)).toNat = first.toNat + t := by
      rw [UInt16.toNat_ofNat', Nat.mod_eq_of_lt (by omega)]
    have hfirst : first ≤ UInt16.ofNat (first.toNat + t) := UInt16.le_iff_toNat_le.mpr (by omega)
    have hport' : UInt16.ofNat (first.toNat + t) ≤ last := UInt16.le_iff_toNat_le.mpr (by omega)
    have hall := hall (UInt16.ofNat (first.toNat + t))
    rw [xmCheckDstPort_iff_le h hs (by omega), hsrc _ hfirst, and_iff_right hfirst,
      and_iff_right hport', hport, Nat.add_sub_cancel_left] at hall
    exact hall
  · intro hwin port
    rw [xmCheckDstPort_iff_le h hs (by omega)]
    by_cases hfirst : first ≤ port
    · have hfn : first.toNat ≤ port.toNat := UInt16.le_iff_toNat_le.mp hfirst
      rw [hsrc port hfirst, and_iff_right hfirst]
      by_cases hport : port ≤ last
      · have hln : port.toNat ≤ last.toNat := UInt16.le_iff_toNat_le.mp hport
        rw [and_iff_right hport]
        exact hwin _ (by omega)
      · refine iff_of_false (fun hin => hport hin.1) ?_
        rintro ⟨i, _, hi⟩
        have hmod := Nat.mod_lt (((validation 1).toNat + i) % 2 ^ 32)
          (show 0 < portCount first last from Nat.succ_pos _)
        exact hport (UInt16.le_iff_toNat_le.mpr (by omega))
    · refine iff_of_false (fun hin => hfirst hin.1) ?_
      rintro ⟨i, hi, rfl⟩
      refine hfirst (UInt16.le_iff_toNat_le.mpr ?_)
      rw [xmGetSrcPort_eq h (by omega)]
      omega

end

theorem xmCheckDstPort_exact_iff_zero :
    (∀ port : UInt16,
      xmCheckDstPort port (numPorts 1000 1003) 1000 1003 (UInt32.ofNat 2) (fun _ => 0) = true ↔
        ∃ i : Nat, i < 2 ∧ port = xmGetSrcPort (numPorts 1000 1003) i 1000 fun _ => 0) ↔
      PortsMatch 1000 1003 2 fun _ => 0 :=
  xmCheckDstPort_exact_iff (by decide) (by decide) (by decide) _

/-- One probe from the second of two ports: an answer to the first port is accepted. -/
theorem xmCheckDstPort_stray :
    xmCheckDstPort 1000 (numPorts 1000 1001) 1000 1001 1 (fun _ => 1) = true ∧
      ¬ ∃ i : Nat, i < 1 ∧ (1000 : UInt16) = xmGetSrcPort (numPorts 1000 1001) i 1000 fun _ => 1 := by
  refine ⟨by decide, ?_⟩
  rintro ⟨i, hi, he⟩
  obtain rfl : i = 0 := by omega
  exact absurd he (by decide)

end Xmap.Probe
