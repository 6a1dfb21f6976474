import Xmap.Probe.TcpTheorems
import Xmap.Scan.Streams

/-!
# Answers

What a host sends back for a probe: a TCP segment of the other end, or an echo reply. An answer to a SYN acknowledges
its sequence number, and a SYN-ACK of no connection is answered by a reset.
-/

namespace Xmap.Scan

open Xmap.Lib Xmap.Probe Xmap.Task

/-- A packet that the driver of the receiver hands over. -/
structure Packet where
  data : Mem
  len : Nat

/-- The frame in which the receiver gets a packet, while the senders are at work and nothing is in its own buffer. -/
def Packet.toFrame (r : Packet) : Frame := ⟨r.data, r.len, false, fun _ => 0⟩

/-- Where the IP header of a probe is in what is sent. -/
def sentIp (context : ScanContext) : Nat := sizeofEtherHeader - sendSkip context

/-- Where the header behind it is. -/
def sentUpper (context : ScanContext) : Nat := sentIp context + sizeofIp

/-- Where that header is in an answer. -/
def upper (r : Packet) : Nat := sizeofEtherHeader + 4 * ipHl r.data sizeofEtherHeader

/-- The IP header goes back from the target of the probe, and `size` bytes behind it are there. -/
structure Returns (context : ScanContext) (p : Sent) (r : Packet) (size : Nat) : Prop where
  hl : 5 ≤ ipHl r.data sizeofEtherHeader
  protocol : ipP r.data sizeofEtherHeader = ipP p.contents (sentIp context)
  src : ipSrc r.data sizeofEtherHeader = ipDst p.contents (sentIp context)
  dst : ipDst r.data sizeofEtherHeader = ipSrc p.contents (sentIp context)
  whole : upper r + size ≤ r.len
  len_lt : r.len < 2 ^ 32

structure TcpReturns (context : ScanContext) (p : Sent) (r : Packet) : Prop where
  ip : Returns context p r sizeofTcphdr
  sport : thSport r.data (upper r) = thDport p.contents (sentUpper context)
  dport : thDport r.data (upper r) = thSport p.contents (sentUpper context)

/-- The answer to a SYN, of a port that is open or not. -/
structure SynAnswer (context : ScanContext) (p : Sent) (r : Packet) : Prop where
  tcp : TcpReturns context p r
  ack : ntohl (thAck r.data (upper r)) = ntohl (thSeq p.contents (sentUpper context)) + 1

/-- The reset for a SYN-ACK: its sequence number is the one that was acknowledged. -/
structure SynAckAnswer (context : ScanContext) (p : Sent) (r : Packet) : Prop where
  tcp : TcpReturns context p r
  rst : thFlags r.data (upper r) &&& TH_RST ≠ 0
  seq : thSeq r.data (upper r) = thAck p.contents (sentUpper context)
  ack : thAck r.data (upper r) = 0

structure EchoAnswer (context : ScanContext) (p : Sent) (r : Packet) : Prop where
  ip : Returns context p r 8
  type : icmpType r.data (upper r) = ICMP_ECHOREPLY
  id : icmpId r.data (upper r) = icmpId p.contents (sentUpper context)
  seq : icmpSeq r.data (upper r) = icmpSeq p.contents (sentUpper context)

/-- What answers a probe of each module. -/
def Answers (context : ScanContext) (p : Sent) (r : Packet) : ProbeModule → Prop
  | .tcpSynscan => SynAnswer context p r
  | .tcpSynackscan => SynAckAnswer context p r
  | .icmpEcho | .icmpEchoTime => EchoAnswer context p r

def IsAnswer (context : ScanContext) (p : Sent) (r : Packet) : Prop := Answers context p r context.probe

section
variable {context : ScanContext} {p : Sent} {r : Packet} {size : Nat}

instance : Decidable (Returns context p r size) :=
  decidable_of_iff (5 ≤ ipHl r.data sizeofEtherHeader ∧
      ipP r.data sizeofEtherHeader = ipP p.contents (sentIp context) ∧
      ipSrc r.data sizeofEtherHeader = ipDst p.contents (sentIp context) ∧
      ipDst r.data sizeofEtherHeader = ipSrc p.contents (sentIp context) ∧
      upper r + size ≤ r.len ∧ r.len < 2 ^ 32)
    ⟨fun ⟨hl, hp, hs, hd, hw, hlt⟩ => ⟨hl, hp, hs, hd, hw, hlt⟩,
      fun ⟨hl, hp, hs, hd, hw, hlt⟩ => ⟨hl, hp, hs, hd, hw, hlt⟩⟩

instance : Decidable (TcpReturns context p r) :=
  decidable_of_iff (Returns context p r sizeofTcphdr ∧
      thSport r.data (upper r) = thDport p.contents (sentUpper context) ∧
      thDport r.data (upper r) = thSport p.contents (sentUpper context))
    ⟨fun ⟨hip, hs, hd⟩ => ⟨hip, hs, hd⟩, fun ⟨hip, hs, hd⟩ => ⟨hip, hs, hd⟩⟩

instance : Decidable (SynAnswer context p r) :=
  decidable_of_iff (TcpReturns context p r ∧
      ntohl (thAck r.data (upper r)) = ntohl (thSeq p.contents (sentUpper context)) + 1)
    ⟨fun ⟨htcp, hack⟩ => ⟨htcp, hack⟩, fun ⟨htcp, hack⟩ => ⟨htcp, hack⟩⟩

instance : Decidable (SynAckAnswer context p r) :=
  decidable_of_iff (TcpReturns context p r ∧ thFlags r.data (upper r) &&& TH_RST ≠ 0 ∧
      thSeq r.data (upper r) = thAck p.contents (sentUpper context) ∧ thAck r.data (upper r) = 0)
    ⟨fun ⟨htcp, hrst, hseq, hack⟩ => ⟨htcp, hrst, hseq, hack⟩,
      fun ⟨htcp, hrst, hseq, hack⟩ => ⟨htcp, hrst, hseq, hack⟩⟩

instance : Decidable (EchoAnswer context p r) :=
  decidable_of_iff (Returns context p r 8 ∧ icmpType r.data (upper r) = ICMP_ECHOREPLY ∧
      icmpId r.data (upper r) = icmpId p.contents (sentUpper context) ∧
      icmpSeq r.data (upper r) = icmpSeq p.contents (sentUpper context))
    ⟨fun ⟨hip, htype, hid, hseq⟩ => ⟨hip, htype, hid, hseq⟩, fun ⟨hip, htype, hid, hseq⟩ => ⟨hip, htype, hid, hseq⟩⟩

instance answersDecidable : ∀ k, Decidable (Answers context p r k)
  | .tcpSynscan => inferInstanceAs (Decidable (SynAnswer context p r))
  | .tcpSynackscan => inferInstanceAs (Decidable (SynAckAnswer context p r))
  | .icmpEcho | .icmpEchoTime => inferInstanceAs (Decidable (EchoAnswer context p r))

instance : Decidable (IsAnswer context p r) := answersDecidable context.probe

end

/-- The test of the ports lets the answer to a probe pass: its port is not behind that of the last stream. -/
def PortPasses (g : ProbeContext) (args : ProbeArgs) : Prop :=
  ((args.validation 1).toNat + args.probeNum.toNat) % 2 ^ 32 % portCount g.sourcePortFirst g.sourcePortLast ≤
    ((args.validation 1).toNat + (g.packetStreams.toNat - 1)) % 2 ^ 32 % portCount g.sourcePortFirst g.sourcePortLast

/-- The answer to the probe is accepted. A reset carries no number that could be checked, so that a validation word
has to stand for 0. -/
def CountsFor (g : ProbeContext) (args : ProbeArgs) : ProbeModule → Prop
  | .tcpSynscan => PortPasses g args
  | .tcpSynackscan => PortPasses g args ∧
      (args.validation 0 = 0xFFFFFFFF ∨ args.validation 2 = 0 ∨ args.validation 2 = 0xFFFFFFFF)
  | .icmpEcho | .icmpEchoTime => True

def Counts (context : ScanContext) (p : Sent) : Prop :=
  CountsFor context.gcontext p.args.toProbeArgs context.probe

end Xmap.Scan
