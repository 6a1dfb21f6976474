import Xmap.Shm.Stream

/-!
# Updates of the count step by step

`xm_shm_entry_pos_update` moves the own position and then adds to the count of entries in use with a
load and a store. Between these the other process can run. A process gets an entry before it commits
it.
-/

namespace Xmap.Shm

/-- Where a process is between getting an entry and the end of its commit. -/
inductive UpdatePc where
  | out
  | taken
  | stepped
  | loaded (v : Nat)
deriving DecidableEq, Repr

structure Party where
  pc : UpdatePc
  commits : Nat
deriving DecidableEq, Repr

structure CountSys where
  header : XmShmHeader
  writer : Party
  reader : Party
deriving DecidableEq, Repr

namespace CountSys

def party (s : CountSys) (isWrite : Bool) : Party := if isWrite then s.writer else s.reader

def setParty (s : CountSys) (isWrite : Bool) (p : Party) : CountSys :=
  if isWrite then { s with writer := p } else { s with reader := p }

/-- The next step of the writer or the reader. -/
def step (s : CountSys) (isWrite : Bool) : CountSys :=
  let p := s.party isWrite
  match p.pc with
  | .out =>
    if shmEntryCanGet s.header isWrite then s.setParty isWrite { p with pc := .taken } else s
  | .taken =>
    { s with header := s.header.stepPos isWrite }.setParty isWrite { p with pc := .stepped }
  | .stepped => s.setParty isWrite { p with pc := .loaded s.header.shmEntriesCountCur }
  | .loaded v =>
    { s with header := { s.header with shmEntriesCountCur := addCount isWrite v } }.setParty isWrite
      { pc := .out, commits := p.commits + 1 }

/-- A run takes a step of the writer for each `true` and of the reader for each `false`. -/
def run (s : CountSys) (schedule : List Bool) : CountSys := schedule.foldl step s

end CountSys

def ShmConf.startCount (conf : ShmConf) : CountSys := ⟨conf.header, ⟨.out, 0⟩, ⟨.out, 0⟩⟩

def UpdatePc.isInside : UpdatePc → Bool
  | out => false
  | taken => false
  | stepped => true
  | loaded _ => true

def UpdatePc.isLoaded : UpdatePc → Bool
  | out => false
  | taken => false
  | stepped => false
  | loaded _ => true

end Xmap.Shm
