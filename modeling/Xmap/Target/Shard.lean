import Xmap.Target.Cyclic
import Xmap.Target.Wblist

/-!
# Shards (`xm_shard`)

A shard walks a range of a cycle and returns the addresses of the indices that it meets. The loops
over group elements take fuel; a walk that never stops runs out of any.
-/

namespace Xmap.Target

def xmShardDone : Nat := 0

structure ShardState where
  sent : Nat
  triedSent : Nat
  blacklisted : Nat
  whitelisted : Nat
  failures : Nat
  firstScanned : Nat
  maxTargets : Nat
deriving DecidableEq, Repr

structure ShardParams where
  first : Nat
  last : Nat
  factor : Nat
  modulus : Nat
deriving DecidableEq, Repr

structure XmShard where
  state : ShardState
  params : ShardParams
  current : Nat
  maxIndex : Nat
  wblist : XmWblist
deriving DecidableEq, Repr

namespace XmShard

/-- One round of `shard_get_next_elem`. -/
def mulFactor (s : XmShard) : XmShard :=
  { s with current := s.current * s.params.factor % 2 ^ 64 % s.params.modulus }

def countWhitelisted (s : XmShard) : XmShard :=
  { s with state := { s.state with whitelisted := (s.state.whitelisted + 1) % 2 ^ 32 } }

def countBlacklisted (s : XmShard) : XmShard :=
  { s with state := { s.state with blacklisted := (s.state.blacklisted + 1) % 2 ^ 32 } }

/-- `xm_wblist_lookup_index` on the list that the shard shares. -/
def lookupIndex (s : XmShard) (index : Nat) : XmShard × Nat :=
  let r := xmWblistLookupIndex s.wblist index
  ({ s with wblist := r.1 }, r.2)

end XmShard

def shardGetNextElem : Nat → XmShard → Option (XmShard × Nat)
  | 0, _ => none
  | fuel + 1, s =>
      let s := s.mulFactor
      if 2 ^ 32 ≤ s.current then shardGetNextElem fuel s else some (s, s.current)

/-- The loop of `xm_shard_get_next_ip`. The candidate is a `uint32_t`, and so is its index. -/
def getNextIpLoop : Nat → XmShard → Option (XmShard × Nat)
  | 0, _ => none
  | fuel + 1, s =>
      match shardGetNextElem fuel s with
      | none => none
      | some (s, candidate) =>
        if candidate = s.params.last then some ({ s with current := xmShardDone }, xmShardDone)
        else if (candidate + 2 ^ 32 - 1) % 2 ^ 32 < s.maxIndex then
          some (s.countWhitelisted.lookupIndex ((candidate + 2 ^ 32 - 1) % 2 ^ 32))
        else getNextIpLoop fuel s.countBlacklisted

def xmShardGetNextIp (fuel : Nat) (s : XmShard) : Option (XmShard × Nat) :=
  if s.current = xmShardDone then some (s, xmShardDone) else getNextIpLoop fuel s

/-- The index before the current element, as a `uint64_t`. -/
def currentIndex (s : XmShard) : Nat := (s.current + 2 ^ 64 - 1) % 2 ^ 64

def xmShardGetCurIp (s : XmShard) : XmShard × Nat := s.lookupIndex (currentIndex s)

def shardRollToValid (fuel : Nat) (s : XmShard) : Option (XmShard × Nat) :=
  if currentIndex s < s.maxIndex then some (s, s.current % 2 ^ 32) else xmShardGetNextIp fuel s

def subIdx (shardIdx threadIdx numThreads : Nat) : Nat := shardIdx * numThreads + threadIdx

/-- The start of subshard `i` of `n`, as an exponent. The products stay far below `2^64`. -/
def exponentAt (cycle : XmCycle) (n i : Nat) : Nat :=
  (cycle.order / n * i + cycle.offset) % cycle.order

def shardParams (cycle : XmCycle) (numSubshards i : Nat) : ShardParams :=
  { first := mpzPowm cycle.generator (exponentAt cycle numSubshards i) cycle.group.val.prime
    last := mpzPowm cycle.generator (exponentAt cycle numSubshards ((i + 1) % numSubshards))
      cycle.group.val.prime
    factor := cycle.generator
    modulus := cycle.group.val.prime }

def maxTargetsOf (maxTotalTargets numSubshards i : Nat) : Nat :=
  maxTotalTargets / numSubshards + if i < maxTotalTargets % numSubshards then 1 else 0

/-- The shard before it rolls to a valid element; `st` is the uninitialised memory of its state. -/
def newShard (st : ShardState) (numSubshards i maxTotalTargets maxIndex : Nat) (cycle : XmCycle)
    (wblist : XmWblist) : XmShard :=
  let params := shardParams cycle numSubshards i
  { state := if 0 < maxTotalTargets then
        { st with maxTargets := maxTargetsOf maxTotalTargets numSubshards i } else st
    params := params
    current := params.first
    maxIndex := maxIndex
    wblist := wblist }

section
variable (st : ShardState) (n i maxTotalTargets maxIndex : Nat) (cycle : XmCycle)
  (wblist : XmWblist)

@[simp] theorem newShard_params :
    (newShard st n i maxTotalTargets maxIndex cycle wblist).params = shardParams cycle n i := rfl

@[simp] theorem newShard_current :
    (newShard st n i maxTotalTargets maxIndex cycle wblist).current =
      (shardParams cycle n i).first := rfl

@[simp] theorem newShard_maxIndex :
    (newShard st n i maxTotalTargets maxIndex cycle wblist).maxIndex = maxIndex := rfl

@[simp] theorem newShard_wblist :
    (newShard st n i maxTotalTargets maxIndex cycle wblist).wblist = wblist := rfl

end

def xmShardCreate (fuel : Nat) (st : ShardState) (shardIdx numShards threadIdx numThreads
    maxTotalTargets maxIndex : Nat) (cycle : XmCycle) (wblist : XmWblist) : Option XmShard :=
  (shardRollToValid fuel (newShard st (numShards * numThreads)
    (subIdx shardIdx threadIdx numThreads) maxTotalTargets maxIndex cycle wblist)).map Prod.fst

/-- The addresses of the next `n` calls. -/
def nextIps (fuel : Nat) : Nat → XmShard → Option (List Nat)
  | 0, _ => some []
  | n + 1, s =>
      match xmShardGetNextIp fuel s with
      | none => none
      | some (s, ip) => (nextIps fuel n s).map (ip :: ·)

/-- The current address and those of the next `n` calls. -/
def curAndNextIps (fuel n : Nat) (s : XmShard) : Option (List Nat) :=
  let r := xmShardGetCurIp s
  (nextIps fuel n r.1).map (r.2 :: ·)

/-- The addresses of a shard from a returned address on: it is emitted and the next one taken, until
one is `XM_SHARD_DONE`. -/
def emitFrom : Nat → XmShard → Nat → Option (List Nat)
  | 0, _, _ => none
  | fuel + 1, s, ip =>
      if ip = xmShardDone then some []
      else
        match xmShardGetNextIp fuel s with
        | none => none
        | some (s, next) => (emitFrom fuel s next).map (ip :: ·)

/-- The loop of `xiterate` and of a sender over its shard. -/
def emit (fuel : Nat) (s : XmShard) : Option (List Nat) :=
  let r := xmShardGetCurIp s
  emitFrom fuel r.1 r.2

end Xmap.Target
