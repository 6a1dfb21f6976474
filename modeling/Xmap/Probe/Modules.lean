import Xmap.Probe.IcmpScan

/-!
# The probe modules (`probes` in `xm_probe.c`)
-/

namespace Xmap.Probe

open Xmap.Lib

/-- The arguments of `thread_init`, and what `random()` returns. -/
structure InitArgs where
  smac : List UInt8
  dmac : List UInt8
  dport : UInt16
  random : UInt32

/-- The arguments of `make_packet`, and the time that `gettimeofday` returns. -/
structure PacketArgs extends ProbeArgs where
  tvSec : UInt32
  tvUsec : UInt32

def PacketArgs.toIcmpArgs (args : PacketArgs) : IcmpArgs :=
  ⟨args.sip, args.dip, args.ttl, args.validation, args.tvSec, args.tvUsec⟩

inductive ProbeModule where
  | tcpSynscan
  | tcpSynackscan
  | icmpEcho
  | icmpEchoTime
deriving DecidableEq, Repr

namespace ProbeModule

def threadInit (m : Mem) (pbuf : Nat) (args : InitArgs) : ProbeModule → Mem
  | tcpSynscan => synscanProbeThreadInit m pbuf args.smac args.dmac args.dport args.random
  | tcpSynackscan => synackscanProbeThreadInit m pbuf args.smac args.dmac args.dport args.random
  | icmpEcho => icmpProbeThreadInit m pbuf args.smac args.dmac
  | icmpEchoTime => icmpTimeProbeThreadInit m pbuf args.smac args.dmac

def makePacket (g : ProbeContext) (m : Mem) (pbuf : Nat) (args : PacketArgs) : ProbeModule → Mem
  | tcpSynscan => synscanProbeMakePacket g m pbuf args.toProbeArgs
  | tcpSynackscan => synackscanProbeMakePacket g m pbuf args.toProbeArgs
  | icmpEcho => icmpProbeMakePacket m pbuf args.toIcmpArgs
  | icmpEchoTime => icmpTimeProbeMakePacket m pbuf args.toIcmpArgs

def probe (g : ProbeContext) : ProbeModule → XmProbe
  | tcpSynscan => probeTcpSynscan g
  | tcpSynackscan => probeTcpSynackscan g
  | icmpEcho => probeIcmpEcho g
  | icmpEchoTime => probeIcmpEchoTime g

/-- A probe that a module builds in the buffer of its thread, after any others. -/
def emitted (k : ProbeModule) (g : ProbeContext) (m : Mem) (pbuf : Nat) (init : InitArgs)
    (earlier : List PacketArgs) (args : PacketArgs) : Mem :=
  k.makePacket g (earlier.foldl (fun m a => k.makePacket g m pbuf a) (k.threadInit m pbuf init)) pbuf args

end ProbeModule

end Xmap.Probe
