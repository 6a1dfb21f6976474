import Xmap.Config.Process

/-!
# Configuration of the drivers

`xm_if_pcap_context_create` and `xm_if_pfring_context_create` start with defaults and read a file with a table of
commands, each with one argument.
-/

namespace Xmap.Config

open Xmap.Target (CStr isSpace)

/-- `strtoul(s, &end, 10)` with a 64-bit `unsigned long`. -/
def strtoul (s : CStr) : Nat :=
  let s := s.dropWhile isSpace
  let (neg, s) := match s with
    | '-' :: r => (true, r)
    | '+' :: r => (false, r)
    | r => (false, r)
  let value := Nat.ofDigitChars 10 (s.takeWhile Char.isDigit) 0
  if 2 ^ 64 ≤ value then 2 ^ 64 - 1 else if neg then (2 ^ 64 - value) % 2 ^ 64 else value

/-- `XM_INIT_TAKE1` with a function that has no error. -/
def xmInitTake1 {σ : Type} (directive : String) (func : CStr → σ → σ) (help : String) : CommandRec σ where
  name := directive.toList
  func := fun args config =>
    match args with
    | .take1 w => (func w config, none)
    | _ => (config, none)
  argsHow := .take1
  errmsg := some help.toList

/-- A context from a file. There is none where the file has no name or the call returns a message. -/
def ContextCreate {σ : Type} (directives : List (CommandRec σ)) (init : σ) (fs : FileSys) (cfname : CStr)
    (pcontext : Option σ) : Prop :=
  if cfname = [] then pcontext = none
  else
    ∃ r, ProcessCommandConfig fs directives cfname init r ∧ pcontext = if r.errmsg = none then some r.config else none

/-! ## libpcap -/

structure XmIfPcapContext where
  snaplen : Nat
  waitMs : Nat
  promiscMode : Bool
  filterText : Option CStr
deriving DecidableEq

def pcapContextInit : XmIfPcapContext where
  snaplen := 65535
  waitMs := 0
  promiscMode := true
  filterText := none

def cmdSnaplen (p1 : CStr) (pcontext : XmIfPcapContext) : XmIfPcapContext := { pcontext with snaplen := strtoul p1 }

def cmdWaitMs (p1 : CStr) (pcontext : XmIfPcapContext) : XmIfPcapContext := { pcontext with waitMs := strtoul p1 }

def cmdPromiscMode (p1 : CStr) (pcontext : XmIfPcapContext) : XmIfPcapContext :=
  { pcontext with promiscMode := strcasecmp p1 "on".toList }

def cmdFilterText (p1 : CStr) (pcontext : XmIfPcapContext) : XmIfPcapContext :=
  { pcontext with filterText := some p1 }

/-- No record without a name ends the array: what the loop of `xm_find_command` reads behind it for other names is not
modelled. -/
def pcapContextDirectives : List (CommandRec XmIfPcapContext) :=
  [xmInitTake1 "XMPCAPSnapLen" cmdSnaplen "set libpcap snaplen value",
    xmInitTake1 "XMPCAPWaitMS" cmdWaitMs "set libpcap capture packets timeout by ms!",
    xmInitTake1 "XMPCAPPromiscMode" cmdPromiscMode "set libpcap promisc mode on/off",
    xmInitTake1 "XMPCAPFilterText" cmdFilterText "set libpcap filter text"]

def XmIfPcapContextCreate : FileSys → CStr → Option XmIfPcapContext → Prop :=
  ContextCreate pcapContextDirectives pcapContextInit

/-! ## PF_RING -/

structure XmIfPfringContext where
  rxNQueue : Nat
  txNQueue : Nat
  rxPerNBuf : Nat
  txPerNBuf : Nat
  rxBufSize : Nat
  txBufSize : Nat
  rxQueueLen : Nat
  txQueueLen : Nat
  maxCardSlots : Nat
  clusterId : Nat
  mntDir : Option CStr
deriving DecidableEq

def ifPfringContextInit : XmIfPfringContext where
  rxNQueue := 0
  txNQueue := 0
  rxPerNBuf := 128
  txPerNBuf := 128
  rxBufSize := 1536
  txBufSize := 1536
  rxQueueLen := 8192
  txQueueLen := 8192
  maxCardSlots := 32768
  clusterId := 9627
  mntDir := none

def cmdRxNQueue (p1 : CStr) (pcontext : XmIfPfringContext) : XmIfPfringContext :=
  { pcontext with rxNQueue := strtoul p1 }

def cmdTxNQueue (p1 : CStr) (pcontext : XmIfPfringContext) : XmIfPfringContext :=
  { pcontext with txNQueue := strtoul p1 }

def cmdRxPerNBuf (p1 : CStr) (pcontext : XmIfPfringContext) : XmIfPfringContext :=
  { pcontext with rxPerNBuf := strtoul p1 }

def cmdTxPerNBuf (p1 : CStr) (pcontext : XmIfPfringContext) : XmIfPfringContext :=
  { pcontext with txPerNBuf := strtoul p1 }

def cmdRxBufSize (p1 : CStr) (pcontext : XmIfPfringContext) : XmIfPfringContext :=
  { pcontext with rxBufSize := strtoul p1 }

def cmdTxBufSize (p1 : CStr) (pcontext : XmIfPfringContext) : XmIfPfringContext :=
  { pcontext with txBufSize := strtoul p1 }

def cmdRxQueueLen (p1 : CStr) (pcontext : XmIfPfringContext) : XmIfPfringContext :=
  { pcontext with rxQueueLen := strtoul p1 }

def cmdTxQueueLen (p1 : CStr) (pcontext : XmIfPfringContext) : XmIfPfringContext :=
  { pcontext with txQueueLen := strtoul p1 }

def cmdMaxCardSlots (p1 : CStr) (pcontext : XmIfPfringContext) : XmIfPfringContext :=
  { pcontext with maxCardSlots := strtoul p1 }

def cmdClusterId (p1 : CStr) (pcontext : XmIfPfringContext) : XmIfPfringContext :=
  { pcontext with clusterId := strtoul p1 % 2 ^ 32 }

def cmdMntDir (p1 : CStr) (pcontext : XmIfPfringContext) : XmIfPfringContext := { pcontext with mntDir := some p1 }

/-- This array has no such record at its end either. -/
def pfringContextDirectives : List (CommandRec XmIfPfringContext) :=
  [xmInitTake1 "XMDPFRingRXNQueue" cmdRxNQueue "set the number of receive queue",
    xmInitTake1 "XMDPFRingTXNQueue" cmdTxNQueue "set the number of transmit queue",
    xmInitTake1 "XMDPFRingRXPerNBuf" cmdRxPerNBuf "set the number of buffer per a receive queue",
    xmInitTake1 "XMDPFRingTXPerNBuf" cmdTxPerNBuf "set the number of buffer per a transmit queue",
    xmInitTake1 "XMDPFRingRXBufSize" cmdRxBufSize "set  one receive buffer size",
    xmInitTake1 "XMDPFRingTXBufSize" cmdTxBufSize "set  one transmit buffer size",
    xmInitTake1 "XMDPFRingRXQueueLen" cmdRxQueueLen "set rx queue len",
    xmInitTake1 "XMDPFRingTXQueueLen" cmdTxQueueLen "set tx queue len",
    xmInitTake1 "XMDPFRingMaxCardSlots" cmdMaxCardSlots "set max card slots",
    xmInitTake1 "XMDPFRingClusterID" cmdClusterId "set the cluster id",
    xmInitTake1 "XMDPFRingMntDir" cmdMntDir "set the hugepages mountpoint"]

def XmIfPfringContextCreate : FileSys → CStr → Option XmIfPfringContext → Prop :=
  ContextCreate pfringContextDirectives ifPfringContextInit

end Xmap.Config
