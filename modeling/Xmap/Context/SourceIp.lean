import Xmap.Probe.Packet
import Xmap.Target.Wblist

/-!
# The source address argument (`xm_parse_source_ip_addresses`)

The string is cut in place at its commas and dashes, so that each call works on a part that ends where
the cut is. The rounds of the loops are counted beside the addresses.
-/

namespace Xmap.Context

open Xmap.Probe
open Xmap.Target (CStr)

/-- The conversions of the C library between addresses in network order and texts. -/
structure Inet where
  inetAton : CStr → Option UInt32
  inetNtoa : UInt32 → CStr
  inetAton_inetNtoa : ∀ a, inetAton (inetNtoa a) = some a

/-- `INADDR_NONE`. -/
def inaddrNone : UInt32 := 0xFFFFFFFF

/-- `inet_addr`. -/
def Inet.inetAddr (inet : Inet) (t : CStr) : UInt32 := (inet.inetAton t).getD inaddrNone

/-- `string_to_ip_address`. -/
def stringToIpAddress (inet : Inet) (t : CStr) : UInt32 := inet.inetAddr t

/-- `strchr(s, c)`: the part before the first `c` and, if there is one, the part after it. -/
def cut (c : Char) : CStr → CStr × Option CStr
  | [] => ([], none)
  | d :: s => if d = c then ([], some s) else (d :: (cut c s).1, (cut c s).2)

theorem length_of_cut {c : Char} {s head tail : CStr} (h : cut c s = (head, some tail)) :
    s.length = head.length + 1 + tail.length := by
  induction s generalizing head with
  | nil => exact absurd (congrArg Prod.snd h) (Option.some_ne_none tail).symm
  | cons d s ih =>
    rw [cut] at h
    by_cases hd : d = c
    · rw [if_pos hd] at h
      obtain ⟨rfl, hs⟩ := Prod.mk.inj h
      obtain rfl := Option.some.inj hs
      simp only [List.length_cons, List.length_nil]
      omega
    · rw [if_neg hd] at h
      obtain ⟨rfl, hs⟩ := Prod.mk.inj h
      have := ih (Prod.ext rfl hs : cut c s = ((cut c s).1, some tail))
      simp only [List.length_cons]
      omega

/-- `source_ip_addresses` up to `number_source_ips`. -/
structure SourceIps where
  sourceIpAddresses : List UInt32
  rounds : Nat
  length_le : sourceIpAddresses.length ≤ 256

namespace SourceIps

def empty : SourceIps := ⟨[], 0, Nat.zero_le 256⟩

/-- A loop goes round. -/
def round (s : SourceIps) : SourceIps := { s with rounds := s.rounds + 1 }

@[simp] theorem round_sourceIpAddresses (s : SourceIps) :
    s.round.sourceIpAddresses = s.sourceIpAddresses := rfl

@[simp] theorem round_rounds (s : SourceIps) : s.round.rounds = s.rounds + 1 := rfl

end SourceIps

/-- `add_to_array`. -/
def addToArray (inet : Inet) (s : SourceIps) (toAdd : CStr) : SourceIps :=
  if h : 256 ≤ s.sourceIpAddresses.length then s
  else
    { s with
      sourceIpAddresses := s.sourceIpAddresses ++ [stringToIpAddress inet toAdd]
      length_le := by
        rw [List.length_append, List.length_singleton]
        omega }

/-- The loop over the commas, with the part before a comma and the part after it. -/
def commaLoop (inet : Inet) (givenString rest : CStr) (s : SourceIps) : SourceIps :=
  match _h : cut ',' rest with
  | (last, none) => addToArray inet (addToArray inet s.round givenString) last
  | (next, some rest) => commaLoop inet next rest (addToArray inet s.round givenString)
termination_by rest.length
decreasing_by
  have := length_of_cut _h
  omega

theorem toNat_sub_succ_lt {start stop : UInt32} (h : start ≠ stop) :
    (stop - (start + 1)).toNat < (stop - start).toNat := by
  have hne : start.toNat ≠ stop.toNat := mt UInt32.toNat_inj.mp h
  have := start.toNat_lt
  have := stop.toNat_lt
  simp only [UInt32.toNat_sub, UInt32.toNat_add, UInt32.toNat_one]
  omega

/-- The loop over a range, in host order. -/
def rangeLoop (inet : Inet) (start stop : UInt32) (s : SourceIps) : SourceIps :=
  if start = stop then s
  else rangeLoop inet (start + 1) stop (addToArray inet s.round (inet.inetNtoa (htonl start)))
termination_by (stop - start).toNat
decreasing_by exact toNat_sub_succ_lt ‹_›

/-- `xm_parse_source_ip_addresses`. -/
def xmParseSourceIpAddresses (inet : Inet) (givenString : CStr) (s : SourceIps) : SourceIps :=
  match _h : cut ',' givenString, cut '-' givenString with
  | (head, some tail), (_, some _) =>
    xmParseSourceIpAddresses inet tail (xmParseSourceIpAddresses inet head s)
  | (head, some tail), (_, none) => commaLoop inet head tail s
  | (_, none), (first, some last) =>
    rangeLoop inet (ntohl (stringToIpAddress inet first)) (ntohl (stringToIpAddress inet last) + 1) s
  | (_, none), (_, none) => addToArray inet s givenString
termination_by givenString.length
decreasing_by
  all_goals
    have := length_of_cut _h
    omega

end Xmap.Context
