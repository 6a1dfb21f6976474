import Xmap.Lib.Steps

/-!
# The core pool (`xm_core_pool`)

The first core that the mask enables is the master. The others are slaves, with a thread each. The master
tells a slave to run its task with a byte on a pipe, and the slave acknowledges it on another.
-/

namespace Xmap.Thread

inductive CoreState where
  | waiting
  | running
  | finished
deriving DecidableEq, Repr

/-- Where a slave stands in `_thread_loop`: before it sets its affinity, at the read of a command, before it
sets its state, before the acknowledgement, before the test for a task, at its task, before it sets its state
again, or out of the loop. -/
inductive SlavePc where
  | start
  | reading
  | commanded
  | acking
  | acked
  | inTask
  | returned
  | left
deriving DecidableEq, Repr

/-- A core, with the number of bytes in its pipes, and whether its task has returned. -/
structure XmCore where
  tsk : Option Nat
  state : CoreState
  enabled : Bool
  pc : SlavePc
  pipeMaster2slave : Nat
  pipeSlave2master : Nat
  taskReturned : Bool
deriving DecidableEq, Repr

def coreCreate (enabled : Bool) : XmCore where
  tsk := none
  state := .waiting
  enabled := enabled
  pc := .start
  pipeMaster2slave := 0
  pipeSlave2master := 0
  taskReturned := false

structure XmCorePool where
  cores : List XmCore
  masterCore : Nat
deriving DecidableEq, Repr

/-! ## Cores in turn -/

/-- The test for which `xm_next_core_get` goes on. -/
def coreSkipped (cpool : XmCorePool) (skipMaster : Bool) (idx : Nat) : Bool :=
  (idx == cpool.masterCore && skipMaster) || !(cpool.cores[idx]?).any XmCore.enabled

/-- `xm_next_core_get`, from an index on. -/
def xmNextCoreGet (cpool : XmCorePool) (skipMaster : Bool) (start : Nat) : Option Nat :=
  (List.range' start (cpool.cores.length - start)).find? fun idx => !coreSkipped cpool skipMaster idx

/-- `CPOOL_CORE_FOREACH_SLAVE`. -/
def coreForeachSlave (cpool : XmCorePool) : List Nat :=
  (List.range cpool.cores.length).filter fun idx => !coreSkipped cpool true idx

/-! ## The mask -/

def isblank (c : Char) : Bool := c == ' ' || c == '\t'

def isxdigit (c : Char) : Bool :=
  c.isDigit || (decide ('a' ≤ c) && decide (c ≤ 'f')) || (decide ('A' ≤ c) && decide (c ≤ 'F'))

def xdigit2val (c : Char) : Nat :=
  if c.isDigit then c.toNat - 48
  else if c.isUpper then c.toNat - 65 + 10
  else c.toNat - 97 + 10

/-- The cores that the digits enable, the last digit first. Digits for which no core is left are 0. -/
def parseDigits : Nat → List Char → Option (List Bool)
  | 0, digits => if digits.all (· == '0') then some [] else none
  | n + 1, [] => some (List.replicate (n + 1) false)
  | n + 1, c :: digits =>
      if isxdigit c then
        (parseDigits (n + 1 - 4) digits).map
          (((List.range 4).map (xdigit2val c).testBit).take (n + 1) ++ ·)
      else none

def stripHexPrefix : List Char → List Char
  | '0' :: 'x' :: mask => mask
  | '0' :: 'X' :: mask => mask
  | mask => mask

def parseCoremask (sysCoreCount : Nat) (coremask : List Char) : Option (List Bool) :=
  let digits := (stripHexPrefix (coremask.dropWhile isblank)).reverse.dropWhile isblank
  if digits = [] then none
  else
    match parseDigits sysCoreCount digits with
    | none => none
    | some enabled => if enabled.any id then some enabled else none

/-! ## The pool -/

def xmCorePoolCreate (sysCoreCount : Nat) (coremask : List Char) : Option XmCorePool :=
  match parseCoremask sysCoreCount coremask with
  | none => none
  | some enabled =>
    let cores := enabled.map coreCreate
    (xmNextCoreGet ⟨cores, 0⟩ false 0).map fun master => ⟨cores, master⟩

def allocCore (cpool : XmCorePool) : Option Nat :=
  (coreForeachSlave cpool).find? fun idx => (cpool.cores[idx]?).any fun core => core.tsk.isNone

def XmCorePool.setCore (cpool : XmCorePool) (idx : Nat) (core : XmCore) : XmCorePool :=
  { cpool with cores := cpool.cores.set idx core }

def xmCorePoolBindTask (cpool : XmCorePool) (tsk : Nat) : XmCorePool × Int :=
  match allocCore cpool with
  | none => (cpool, -1)
  | some idx =>
    match cpool.cores[idx]? with
    | none => (cpool, -1)
    | some core => (cpool.setCore idx { core with tsk := some tsk }, 0)

/-- The pool with the tasks bound one after another. -/
def bindTasks (cpool : XmCorePool) (tsks : List Nat) : XmCorePool :=
  tsks.foldl (fun cpool tsk => (xmCorePoolBindTask cpool tsk).1) cpool

/-! ## The threads -/

/-- Where the master stands: in the tests of `xm_core_pool_slaves_setup`, before a command to a core or the
end of the commands, at the read of an acknowledgement, after a failure, and at a core or at the end in
`xm_core_pool_wait_for_slaves`. -/
inductive MasterPc where
  | check (core : Option Nat)
  | launch (core : Option Nat)
  | ack (core : Nat)
  | setupFailed
  | wait (core : Option Nat)
deriving DecidableEq, Repr

structure PoolSys where
  cpool : XmCorePool
  master : MasterPc
deriving DecidableEq, Repr

/-- The pool when `xm_core_pool_slaves_setup` is called. The slaves look at their tasks only after a command,
so all tasks may be bound by then. -/
def poolStart (cpool : XmCorePool) : PoolSys := ⟨cpool, .check (xmNextCoreGet cpool true 0)⟩

/-- A step of a slave. Its system call may fail, and a read of an empty pipe blocks. -/
def slaveStep (ok : Bool) (core : XmCore) : Option XmCore :=
  match core.pc with
  | .start => some { core with pc := if ok then .reading else .left }
  | .reading =>
      if !ok then some { core with pc := .left }
      else if core.pipeMaster2slave = 0 then none
      else some { core with pipeMaster2slave := core.pipeMaster2slave - 1, pc := .commanded }
  | .commanded => some { core with state := .running, pc := .acking }
  | .acking =>
      if !ok then some { core with pc := .left }
      else some { core with pipeSlave2master := core.pipeSlave2master + 1, pc := .acked }
  | .acked => some { core with pc := if core.tsk = none then .left else .inTask }
  -- the return of `xm_task_run` and the store of the state are steps of their own
  | .inTask => some { core with taskReturned := true, pc := .returned }
  | .returned => some { core with state := .finished, pc := .reading }
  | .left => none

/-- The next core of the loop of the master. -/
def PoolSys.next (s : PoolSys) (idx : Nat) : Option Nat := xmNextCoreGet s.cpool true (idx + 1)

/-- A step of the master at a core. -/
def masterAt (ok : Bool) (s : PoolSys) (idx : Nat) (core : XmCore) : Option PoolSys :=
  match s.master with
  | .check _ =>
      if core.state ≠ .waiting then some { s with master := .setupFailed }
      else some { s with master := .check (s.next idx) }
  | .launch _ =>
      if core.state ≠ .waiting || !ok then some { s with master := .setupFailed }
      else some
        { cpool := s.cpool.setCore idx { core with pipeMaster2slave := core.pipeMaster2slave + 1 }
          master := .ack idx }
  | .ack _ =>
      if !ok then some { s with master := .setupFailed }
      else if core.pipeSlave2master = 0 then none
      else some
        { cpool := s.cpool.setCore idx { core with pipeSlave2master := core.pipeSlave2master - 1 }
          master := .launch (s.next idx) }
  | .setupFailed => none
  | .wait _ =>
      -- `_wait_core` spins while the state is `RUNNING`
      match core.state with
      | .waiting => some { s with master := .wait (s.next idx) }
      | .finished => some
          { cpool := s.cpool.setCore idx { core with state := .waiting }
            master := .wait (s.next idx) }
      | .running => none

def masterStep (ok : Bool) (s : PoolSys) : Option PoolSys :=
  match s.master with
  | .check none => some { s with master := .launch (xmNextCoreGet s.cpool true 0) }
  | .launch none => some { s with master := .wait (xmNextCoreGet s.cpool true 0) }
  | .setupFailed => none
  | .wait none => none
  | .check (some idx) | .launch (some idx) | .ack idx | .wait (some idx) =>
      (s.cpool.cores[idx]?).bind (masterAt ok s idx)

inductive PoolAction where
  | master (ok : Bool)
  | slave (idx : Nat) (ok : Bool)
deriving DecidableEq, Repr

def poolStep (s : PoolSys) : PoolAction → Option PoolSys
  | .master ok => masterStep ok s
  | .slave idx ok =>
      if coreSkipped s.cpool true idx then none
      else (s.cpool.cores[idx]?).bind fun core =>
        (slaveStep ok core).map fun core => { s with cpool := s.cpool.setCore idx core }

end Xmap.Thread
