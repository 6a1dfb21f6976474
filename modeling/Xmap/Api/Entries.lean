import Xmap.Shm.Stream
import Xmap.Probe.Probe

/-!
# Entries of the reading side (`XMapSourceEntryParser`)

The reader unpacks the fields of a record in the order in which the probe modules pack them, whatever their
keys. The unpacker is msgpack's.
-/

namespace Xmap.Api

open Xmap.Lib Xmap.Shm

/-- A step of the reader on the bytes that are left. It fails where the reader throws. -/
abbrev Unpack (α : Type) := StateT (List UInt8) Option α

/-- `MessageUnpacker`. Numbers are in the ranges of `int` and `long`. -/
structure MessageUnpacker where
  unpackMapHeader : Unpack Int
  unpackString : Unpack String
  unpackInt : Unpack Int
  unpackLong : Unpack Int

/-- The unpacker of the formats that `msgpackPacker` writes. -/
def messageUnpacker : MessageUnpacker where
  unpackMapHeader bs := (Msgpack.unpackMap bs).bind fun p =>
    if p.1 < 2 ^ 31 then some (p.1, p.2) else none
  unpackString := Msgpack.unpackStr
  unpackInt bs := (Msgpack.unpackUint bs).bind fun p =>
    if p.1 < 2 ^ 31 then some (p.1, p.2) else none
  unpackLong bs := (Msgpack.unpackUint bs).bind fun p =>
    if p.1 < 2 ^ 63 then some (p.1, p.2) else none

/-! ## Values (`MessagePackUtil`) -/

section
variable (unpacker : MessageUnpacker)

def parseText : Unpack String := do
  let _ ← unpacker.unpackString
  unpacker.unpackString

def parseInt : Unpack Int := do
  let _ ← unpacker.unpackString
  unpacker.unpackInt

def parseLong : Unpack Int := do
  let _ ← unpacker.unpackString
  unpacker.unpackLong

def parseMapHeader (hasName : Bool) : Unpack Int := do
  if hasName then
    let _ ← unpacker.unpackString
  unpacker.unpackMapHeader

end

/-! ## Entries -/

structure IPScanEntry where
  type : Int
  srcIP : Int
  dstIP : Int
  ttl : Int
  id : Int
deriving DecidableEq, Repr

structure TCPSYNScanEntry extends IPScanEntry where
  srcPort : Int
  dstPort : Int
  seq : Int
  ack : Int
  window : Int
  success : Bool
  msg : String
deriving DecidableEq, Repr

/-- Its own `type` and `id` hide those of the IP header. -/
structure ICMPScanEntry where
  ip : IPScanEntry
  success : Bool
  msg : String
  type : Int
  code : Int
  id : Int
  seq : Int
deriving DecidableEq, Repr

structure ICMPTimeScanEntry extends ICMPScanEntry where
  sentTimeTS : Int
  sentTimeUS : Int
  dstRawIP : Int
deriving DecidableEq, Repr

inductive SourceEntry where
  | tcpSyn (e : TCPSYNScanEntry)
  | icmp (e : ICMPScanEntry)
  | icmpTime (e : ICMPTimeScanEntry)
deriving DecidableEq, Repr

section
variable (unpacker : MessageUnpacker)

def newIPScanEntry : Unpack IPScanEntry := do
  let _ ← parseMapHeader unpacker false
  let type ← parseInt unpacker
  let _ ← parseMapHeader unpacker true
  let srcIP ← parseLong unpacker
  let dstIP ← parseLong unpacker
  let id ← parseLong unpacker
  let ttl ← parseLong unpacker
  return { type, srcIP, dstIP, ttl, id }

def newTCPSYNScanEntry : Unpack TCPSYNScanEntry := do
  let ip ← newIPScanEntry unpacker
  let _ ← parseMapHeader unpacker true
  let success ← parseInt unpacker
  let msg ← parseText unpacker
  let srcPort ← parseInt unpacker
  let dstPort ← parseInt unpacker
  let seq ← parseLong unpacker
  let ack ← parseLong unpacker
  let window ← parseLong unpacker
  return { ip with srcPort, dstPort, seq, ack, window, success := success == 1, msg }

def newICMPScanEntry : Unpack ICMPScanEntry := do
  let ip ← newIPScanEntry unpacker
  let _ ← parseMapHeader unpacker true
  let success ← parseInt unpacker
  let msg ← parseText unpacker
  let type ← parseInt unpacker
  let code ← parseInt unpacker
  let id ← parseLong unpacker
  let seq ← parseLong unpacker
  return { ip, success := success == 1, msg, type, code, id, seq }

def newICMPTimeScanEntry : Unpack ICMPTimeScanEntry := do
  let icmp ← newICMPScanEntry unpacker
  let sentTimeTS ← parseLong unpacker
  let sentTimeUS ← parseLong unpacker
  let dstRawIP ← parseLong unpacker
  return { icmp with sentTimeTS, sentTimeUS, dstRawIP }

end

/-! ## The parser -/

def TCPSYNSCAN : UInt8 := 1
def ICMPSCAN : UInt8 := 2
def ICMPTIMESCAN : UInt8 := 3

/-- `XMapSourceEntryParser.parse` on a record that the reader has delivered, with the bytes that are left.
The entry of an unknown type is null. -/
def parse (unpacker : MessageUnpacker) (mapEntry : ShmRecord) :
    Option (Option SourceEntry × List UInt8) :=
  if mapEntry.type = TCPSYNSCAN then
    (some <$> .tcpSyn <$> newTCPSYNScanEntry unpacker : Unpack _).run mapEntry.data
  else if mapEntry.type = ICMPSCAN then
    (some <$> .icmp <$> newICMPScanEntry unpacker : Unpack _).run mapEntry.data
  else if mapEntry.type = ICMPTIMESCAN then
    (some <$> .icmpTime <$> newICMPTimeScanEntry unpacker : Unpack _).run mapEntry.data
  else some (none, mapEntry.data)

end Xmap.Api
