import Xmap.Context.SourceIp
import Xmap.Target.Lemmas.Strtol
import Xmap.Target.Scan

/-!
# The numeric options (`_context_set`)

The integers of the command line become words of 32 bits when they are parsed, and fields of 8 and 16 bits
here. The other steps read none of them and either succeed or end the program.
-/

namespace Xmap.Context

open Xmap.Target (CStr strtol toInt32 decimalValue clampLong contextSenders)

/-! ## Arguments -/

/-- A decimal numeral, with a sign where the integer is negative. -/
structure Numeral where
  neg : Bool
  digits : CStr
  digits_ne : digits ≠ []
  digits_isDigit : ∀ c ∈ digits, c.isDigit = true
  neg_pos : neg = true → 0 < decimalValue digits

namespace Numeral

def text (n : Numeral) : CStr := if n.neg then '-' :: n.digits else n.digits

def value (n : Numeral) : Int := if n.neg then -(decimalValue n.digits : Int) else decimalValue n.digits

end Numeral

inductive SourcePort where
  | single (port : Numeral)
  | range (first last : Numeral)

namespace SourcePort

def text : SourcePort → CStr
  | single port => port.text
  | range first last => first.text ++ '-' :: last.text

def first : SourcePort → Int
  | single port => port.value
  | range first _ => first.value

def last : SourcePort → Int
  | single port => port.value
  | range _ last => last.value

end SourcePort

/-- The options of `gengetopt_args_info` that give an integer, and whether a seed is given. -/
structure Args where
  sourcePort : Option SourcePort
  targetPort : Option Int
  senderThreads : Option Int
  shard : Option Int
  shards : Option Int
  probeTtl : Option Int
  seedGiven : Bool

/-- An `ARG_INT` of `update_arg`: a `long` that is stored in an `int`. -/
def argInt (v : Int) : Int := toInt32 (clampLong v)

/-- What the other steps find. -/
structure Env where
  /-- the probe, by its `port_args` -/
  portArgs : Option Bool
  /-- an interface is given, or there is a default one -/
  ifaceSend : Bool
  numRetries : Int
  /-- a source address is given, or the interface has one -/
  sourceIp : Bool
  gwMac : Bool
  hwMac : Bool
  /-- `xm_random_bytes` for the seed -/
  randomBytes : Bool
  aes : Bool
  /-- the bandwidth has a known suffix -/
  bandwidth : Bool
  wblist : Bool
  allowed : Nat
  maxTargets : Nat
  sendInterface : Bool
  recvInterface : Bool
  maxTargets_lt : maxTargets < 2 ^ 32

/-! ## `_context_set` -/

/-- The fields of `xm_context_t` for the options. -/
structure Fields where
  sourcePortFirst : Nat
  sourcePortLast : Nat
  targetPort : Nat
  senders : Nat
  shardNum : Nat
  totalShards : Nat
  probeTtl : Nat
deriving DecidableEq, Repr

def atoi (s : CStr) : Int := toInt32 (strtol s).value

def toUint16 (v : Int) : Nat := (v % 2 ^ 16).toNat

def toUint8 (v : Int) : Nat := (v % 2 ^ 8).toNat

/-- `xm_enforce_range` ends the program outside of the range. -/
def enforceRange (v min max : Int) : Option Unit := if v < min ∨ max < v then none else some ()

/-- A range is stored before it is checked, a single port after. -/
def setSourcePort (arg : CStr) : Option (Nat × Nat) :=
  match cut '-' arg with
  | (before, some after) => do
    let first := toUint16 (atoi before)
    enforceRange first 0 0xFFFF
    let last := toUint16 (atoi after)
    enforceRange last 0 0xFFFF
    if last < first then none else some (first, last)
  | (_, none) => do
    let port := atoi arg
    enforceRange port 0 0xFFFF
    some (toUint16 port, toUint16 port)

/-- The ports of a probe that takes them; the defaults are those of `_context_init`. -/
def setPorts (portArgs : Bool) (args : Args) : Option (Nat × Nat × Nat) :=
  if portArgs then do
    let sourcePort ← args.sourcePort.elim (some (32768, 61000)) fun v => setSourcePort v.text
    let targetPort ← args.targetPort
    enforceRange (argInt targetPort) 0 0xFFFF
    some (sourcePort.1, sourcePort.2, toUint16 (argInt targetPort))
  else some (32768, 61000, 0)

def setShards (args : Args) : Option (Nat × Nat) :=
  if (args.shard.isSome ∨ args.shards.isSome) ∧ args.seedGiven = false then none
  else if args.shard.isSome ≠ args.shards.isSome then none
  else do
    args.shard.elim (some ()) fun v => enforceRange (argInt v) 0 65534
    args.shards.elim (some ()) fun v => enforceRange (argInt v) 1 65535
    let shardNum := args.shard.elim 0 fun v => toUint16 (argInt v)
    let totalShards := args.shards.elim 1 fun v => toUint16 (argInt v)
    if totalShards ≤ shardNum then none else some (shardNum, totalShards)

/-- The steps before the seed that read no integer of an option. -/
def Env.linkFound (env : Env) : Bool := env.sourceIp && env.gwMac && env.hwMac

/-- The steps between the shards and the senders. -/
def Env.targetsFound (env : Env) : Bool :=
  env.bandwidth && env.wblist && decide (env.allowed ≤ 2 ^ 32) && decide (env.allowed ≠ 0)

def contextSet (env : Env) (args : Args) : Option Fields := do
  let portArgs ← env.portArgs
  let probeTtl := args.probeTtl.elim 255 fun v => toUint8 (argInt v)
  guard (env.ifaceSend ∧ 0 ≤ env.numRetries)
  let ports ← setPorts portArgs args
  guard env.linkFound
  guard (args.seedGiven ∨ env.randomBytes)
  guard env.aes
  let shards ← setShards args
  guard env.targetsFound
  let senders := contextSenders (args.senderThreads.map argInt) env.maxTargets
  guard (env.sendInterface ∧ env.recvInterface)
  some {
    sourcePortFirst := ports.1
    sourcePortLast := ports.2.1
    targetPort := ports.2.2
    senders
    shardNum := shards.1
    totalShards := shards.2
    probeTtl }

end Xmap.Context
