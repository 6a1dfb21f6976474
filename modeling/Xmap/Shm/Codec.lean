import Xmap.Shm.BinFormat

/-!
# Typed values in a buffer (`xm_bin_format`)

The writes take a value of an integer type apart byte by byte, the reads put the bytes together again in
the arithmetic of the type. A write returns the number of its bytes, or -1 where they do not fit.
-/

namespace Xmap.Shm.Codec

open Xmap.Lib

/-! ## Integer types -/

inductive IntType where
  | int8
  | uint8
  | int16
  | uint16
  | int32
  | uint32
  | int64
  | uint64
  | size
deriving DecidableEq, Repr

namespace IntType

def sizeof : IntType → Nat
  | int8 | uint8 => 1
  | int16 | uint16 => 2
  | int32 | uint32 => 4
  | int64 | uint64 | size => 8

def signed : IntType → Bool
  | int8 | int16 | int32 | int64 => true
  | uint8 | uint16 | uint32 | uint64 | size => false

def InRange (t : IntType) (v : Int) : Prop :=
  if t.signed then -2 ^ (8 * t.sizeof - 1) ≤ v ∧ v < 2 ^ (8 * t.sizeof - 1)
  else 0 ≤ v ∧ v < 2 ^ (8 * t.sizeof)

/-- The conversion of a number to a type, with two's complement for the signed ones. -/
def convert (t : IntType) (v : Int) : Int :=
  if t.signed then v.bmod (2 ^ (8 * t.sizeof)) else v % 2 ^ (8 * t.sizeof)

/-- The type in which an operand is computed with: a type narrower than `int` becomes `int`. -/
def promote (t : IntType) : IntType := if t.sizeof < 4 then int32 else t

end IntType

/-! ## Writing -/

/-- `DO_VALUE_WRITE`: the bytes of a value, the shift going down by eight bits. -/
def doValueWrite (v : Int) : Nat → List UInt8
  | 0 => []
  | n + 1 => UInt8.ofNat (v >>> (8 * n) % 256).toNat :: doValueWrite v n

def valueWrite (t : IntType) (w : Mem × XmBinFormat) (v : Int) : (Mem × XmBinFormat) × Int :=
  if xmBfFull w.2 t.sizeof then (w, -1) else (doWrite w (doValueWrite v t.sizeof), t.sizeof)

def xmBfInt8Write : Mem × XmBinFormat → Int → (Mem × XmBinFormat) × Int := valueWrite .int8

def xmBfUint8Write : Mem × XmBinFormat → Int → (Mem × XmBinFormat) × Int := valueWrite .uint8

def xmBfInt16Write : Mem × XmBinFormat → Int → (Mem × XmBinFormat) × Int := valueWrite .int16

def xmBfUint16Write : Mem × XmBinFormat → Int → (Mem × XmBinFormat) × Int := valueWrite .uint16

def xmBfInt32Write : Mem × XmBinFormat → Int → (Mem × XmBinFormat) × Int := valueWrite .int32

def xmBfUint32Write : Mem × XmBinFormat → Int → (Mem × XmBinFormat) × Int := valueWrite .uint32

def xmBfInt64Write : Mem × XmBinFormat → Int → (Mem × XmBinFormat) × Int := valueWrite .int64

def xmBfUint64Write : Mem × XmBinFormat → Int → (Mem × XmBinFormat) × Int := valueWrite .uint64

def xmBfSizeWrite : Mem × XmBinFormat → Int → (Mem × XmBinFormat) × Int := valueWrite .size

/-- The length with its eight bytes is a `size_t`, the count a `ssize_t`. -/
def xmBfBytesWrite (w : Mem × XmBinFormat) (bytes : List UInt8) : (Mem × XmBinFormat) × Int :=
  let rlen := (bytes.length + 8) % 2 ^ 64
  if xmBfFull w.2 rlen then (w, -1)
  else (doWrite (xmBfSizeWrite w bytes.length).1 bytes, IntType.int64.convert rlen)

/-! ## Reading -/

/-- `DO_VALUE_READ`: the sum is computed in the promoted type and stored in the type. -/
def doValueRead (t : IntType) : List UInt8 → Int → Int
  | [], value => value
  | b :: bs, value =>
    let shifted := t.promote.convert (t.convert b.toNat <<< (8 * bs.length))
    doValueRead t bs (t.convert (t.promote.convert (value + shifted)))

def valueRead (t : IntType) (m : Mem) (bf : XmBinFormat) : Int × XmBinFormat :=
  if xmBfFull bf t.sizeof then (0, bf)
  else (doValueRead t (m.read bf.pos t.sizeof) 0, xmBfPosUpdate bf t.sizeof)

def xmBfInt8Read : Mem → XmBinFormat → Int × XmBinFormat := valueRead .int8

def xmBfUint8Read : Mem → XmBinFormat → Int × XmBinFormat := valueRead .uint8

def xmBfInt16Read : Mem → XmBinFormat → Int × XmBinFormat := valueRead .int16

def xmBfUint16Read : Mem → XmBinFormat → Int × XmBinFormat := valueRead .uint16

def xmBfInt32Read : Mem → XmBinFormat → Int × XmBinFormat := valueRead .int32

def xmBfUint32Read : Mem → XmBinFormat → Int × XmBinFormat := valueRead .uint32

def xmBfInt64Read : Mem → XmBinFormat → Int × XmBinFormat := valueRead .int64

def xmBfUint64Read : Mem → XmBinFormat → Int × XmBinFormat := valueRead .uint64

def xmBfSizeRead : Mem → XmBinFormat → Int × XmBinFormat := valueRead .size

/-- The bytes that the pointer and the length stand for; only the length is checked against the end. -/
def xmBfBytesRead (m : Mem) (bf : XmBinFormat) : List UInt8 × XmBinFormat :=
  if xmBfFull bf 8 then ([], bf)
  else
    let r := xmBfSizeRead m bf
    (m.read r.2.pos r.1.toNat, xmBfPosUpdate r.2 r.1.toNat)

/-! ## Sequences of values -/

inductive ValueType where
  | int (t : IntType)
  | bytes
deriving DecidableEq, Repr

inductive Value where
  | int (v : Int)
  | bytes (bs : List UInt8)
deriving DecidableEq

/-- A value that an object of the type can hold; no object has `2 ^ 63` bytes. -/
inductive TypedValue where
  | int (t : IntType) (v : Int) (hv : t.InRange v)
  | bytes (bs : List UInt8) (hb : bs.length < 2 ^ 63)

namespace TypedValue

def type : TypedValue → ValueType
  | int t _ _ => .int t
  | bytes _ _ => .bytes

def value : TypedValue → Value
  | int _ v _ => .int v
  | bytes bs _ => .bytes bs

end TypedValue

def intWrite : IntType → Mem × XmBinFormat → Int → (Mem × XmBinFormat) × Int
  | .int8 => xmBfInt8Write
  | .uint8 => xmBfUint8Write
  | .int16 => xmBfInt16Write
  | .uint16 => xmBfUint16Write
  | .int32 => xmBfInt32Write
  | .uint32 => xmBfUint32Write
  | .int64 => xmBfInt64Write
  | .uint64 => xmBfUint64Write
  | .size => xmBfSizeWrite

def intRead : IntType → Mem → XmBinFormat → Int × XmBinFormat
  | .int8 => xmBfInt8Read
  | .uint8 => xmBfUint8Read
  | .int16 => xmBfInt16Read
  | .uint16 => xmBfUint16Read
  | .int32 => xmBfInt32Read
  | .uint32 => xmBfUint32Read
  | .int64 => xmBfInt64Read
  | .uint64 => xmBfUint64Read
  | .size => xmBfSizeRead

def writeOne (w : Mem × XmBinFormat) : TypedValue → (Mem × XmBinFormat) × Int
  | .int t v _ => intWrite t w v
  | .bytes bs _ => xmBfBytesWrite w bs

def readOne (m : Mem) (bf : XmBinFormat) : ValueType → Value × XmBinFormat
  | .int t => let r := intRead t m bf; (.int r.1, r.2)
  | .bytes => let r := xmBfBytesRead m bf; (.bytes r.1, r.2)

/-- The writes of a list of values, with their counts. -/
def writeAll (w : Mem × XmBinFormat) : List TypedValue → (Mem × XmBinFormat) × List Int
  | [] => (w, [])
  | x :: xs =>
    let one := writeOne w x
    let rest := writeAll one.1 xs
    (rest.1, one.2 :: rest.2)

def readAll (m : Mem) (bf : XmBinFormat) : List ValueType → List Value × XmBinFormat
  | [] => ([], bf)
  | t :: ts =>
    let one := readOne m bf t
    let rest := readAll m one.2 ts
    (one.1 :: rest.1, rest.2)

end Xmap.Shm.Codec
