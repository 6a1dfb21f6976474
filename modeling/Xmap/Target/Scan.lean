import Xmap.Target.Shard

/-!
# Building shards (`xiterate`, `xm_send_task`, `xm_work`)

A run of xiterate builds one shard for its shard number. An xmap instance builds one shard for each
sender thread; the threads are numbered from one and each draws a cycle of its own.
-/

namespace Xmap.Target

/-- `xit_conf`, without a limit on the number of hosts. -/
structure XitConf where
  shardNum : Nat
  totalShards : Nat
  aes : XmAesrand
  wblist : XmWblist

/-- `_create_shard` of xiterate. -/
def xitCreateShard (fuel : Nat) (st : ShardState) (conf : XitConf) : Option XmShard :=
  let numAddrs := xmWblistCountAllowed conf.wblist
  match xmGetCyclicGroup numAddrs with
  | none => none
  | some group =>
    match xmMakeCycle group conf.aes with
    | none => none
    | some (cycle, _) =>
      xmShardCreate fuel st conf.shardNum conf.totalShards 0 1 (numAddrs % 2 ^ 32) numAddrs cycle
        conf.wblist

/-- The run prints these addresses and ends. -/
def XitPrints (st : ShardState) (conf : XitConf) (out : List Nat) : Prop :=
  ∃ fuel s, xitCreateShard fuel st conf = some s ∧ ∃ fuel, emit fuel s = some out

/-- The fields of `xm_context_t` that the shards are built from. -/
structure SendContext where
  shardNum : Nat
  totalShards : Nat
  senders : Nat
  maxTargets : Nat
  wblist : XmWblist

/-- The `senders` that `_context_set` leaves in force, from `sender_threads` where it is given. -/
def contextSenders (senderThreads : Option Int) (maxTargets : Nat) : Nat :=
  let senders := match senderThreads with
    | none => 1
    | some n => (n % 2 ^ 8).toNat
  if maxTargets ≤ 2 * senders then 1 else senders

/-- The `max_index` of `_create_shard`. -/
def sendMaxIndex (numAddrs : Nat) : Nat :=
  if 2 ^ 32 < numAddrs then 0xFFFFFFFF else numAddrs % 2 ^ 32

/-- `_create_shard` of a sender. -/
def sendCreateShard (fuel : Nat) (st : ShardState) (context : SendContext) (aes : XmAesrand)
    (threadIdx : Nat) : Option (XmShard × XmAesrand) :=
  let numAddrs := xmWblistCountAllowed context.wblist
  match xmGetCyclicGroup numAddrs with
  | none => none
  | some group =>
    match xmMakeCycle group aes with
    | none => none
    | some (cycle, aes) =>
      (xmShardCreate fuel st context.shardNum context.totalShards threadIdx context.senders
        context.maxTargets (sendMaxIndex numAddrs) cycle context.wblist).map (·, aes)

/-- The loop of `xm_work_create` over the senders from `i` on; a thread index is a `uint8_t`. The memory of each
sender's shard is its own. -/
def workCreateShards (fuel : Nat) (st : Nat → ShardState) (context : SendContext) :
    Nat → Nat → XmAesrand → Option (List XmShard)
  | 0, _, _ => some []
  | n + 1, i, aes =>
      match sendCreateShard fuel (st i) context aes ((i + 1) % 2 ^ 8) with
      | none => none
      | some (s, aes) => (workCreateShards fuel st context n (i + 1) aes).map (s :: ·)

/-- The senders emit these addresses, each sender its own list, and all end. -/
def WorkEmits (st : Nat → ShardState) (context : SendContext) (aes : XmAesrand)
    (outs : List (List Nat)) : Prop :=
  ∃ fuel shards, workCreateShards fuel st context context.senders 0 aes = some shards ∧
    List.Forall₂ (fun s out => ∃ fuel, emit fuel s = some out) shards outs

end Xmap.Target
