import Xmap.Lib.Bytes

/-!
# Bounded buffers (`xm_bin_format`)

A buffer is a range of a memory with a position. A write that does not fit leaves the buffer as it is,
and the callers ignore its return value.
-/

namespace Xmap.Shm

open Xmap.Lib

structure XmBinFormat where
  start : Nat
  pos : Nat
  finish : Nat
deriving DecidableEq, Repr

def xmBfInit (start finish : Nat) : XmBinFormat := ⟨start, start, finish⟩

def xmBfContentSize (bf : XmBinFormat) : Nat := bf.pos - bf.start

abbrev xmBfFull (bf : XmBinFormat) (size : Nat) : Prop := bf.finish < bf.pos + size

abbrev xmBfEmpty (bf : XmBinFormat) : Prop := bf.pos = bf.start

def xmBfPosUpdate (bf : XmBinFormat) (size : Nat) : XmBinFormat := { bf with pos := bf.pos + size }

def xmBfReset (bf : XmBinFormat) : XmBinFormat := { bf with pos := bf.start }

def xmBfSkip (bf : XmBinFormat) (size : Nat) : XmBinFormat :=
  if xmBfFull bf size then { bf with pos := bf.finish } else xmBfPosUpdate bf size

/-! ## Writing -/

def doWrite (w : Mem × XmBinFormat) (bytes : List UInt8) : Mem × XmBinFormat :=
  (w.1.write w.2.pos bytes, xmBfPosUpdate w.2 bytes.length)

/-- A write of the `sz` bytes of an unsigned value. -/
def xmBfValueWrite (sz : Nat) (w : Mem × XmBinFormat) (v : Nat) : Mem × XmBinFormat :=
  if xmBfFull w.2 sz then w else doWrite w (toBE sz v)

def xmBfUint8Write (w : Mem × XmBinFormat) (v : UInt8) : Mem × XmBinFormat :=
  xmBfValueWrite 1 w v.toNat

def xmBfUint32Write : Mem × XmBinFormat → Nat → Mem × XmBinFormat := xmBfValueWrite 4

def xmBfSizeWrite : Mem × XmBinFormat → Nat → Mem × XmBinFormat := xmBfValueWrite 8

def xmBfBytesWrite (w : Mem × XmBinFormat) (bytes : List UInt8) : Mem × XmBinFormat :=
  if xmBfFull w.2 (bytes.length + 8) then w else doWrite (xmBfSizeWrite w bytes.length) bytes

/-! ## Reading -/

/-- A read of an unsigned value of `sz` bytes; past the end it is zero. -/
def xmBfValueRead (sz : Nat) (m : Mem) (bf : XmBinFormat) : Nat × XmBinFormat :=
  if xmBfFull bf sz then (0, bf) else (ofBE (m.read bf.pos sz), xmBfPosUpdate bf sz)

def xmBfUint8Read (m : Mem) (bf : XmBinFormat) : UInt8 × XmBinFormat :=
  let r := xmBfValueRead 1 m bf
  (UInt8.ofNat r.1, r.2)

def xmBfUint32Read : Mem → XmBinFormat → Nat × XmBinFormat := xmBfValueRead 4

def xmBfSizeRead : Mem → XmBinFormat → Nat × XmBinFormat := xmBfValueRead 8

/-- Only the length is checked against the end. -/
def xmBfBytesRead (m : Mem) (bf : XmBinFormat) : List UInt8 × XmBinFormat :=
  if xmBfFull bf 8 then ([], bf)
  else
    let r := xmBfSizeRead m bf
    (m.read r.2.pos r.1, xmBfPosUpdate r.2 r.1)

end Xmap.Shm
