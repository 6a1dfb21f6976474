import Xmap.Lib.Bytes

/-!
# Msgpack

The formats of unsigned numbers, strings and map headers, each in its shortest form, and how they are read
back from the front of some bytes.
-/

namespace Xmap.Lib.Msgpack

/-! ## Packing -/

def packUint (n : Nat) : List UInt8 :=
  if n < 2 ^ 7 then [UInt8.ofNat n]
  else if n < 2 ^ 8 then 0xCC :: toBE 1 n
  else if n < 2 ^ 16 then 0xCD :: toBE 2 n
  else if n < 2 ^ 32 then 0xCE :: toBE 4 n
  else 0xCF :: toBE 8 n

def packStrHeader (n : Nat) : List UInt8 :=
  if n < 32 then [UInt8.ofNat (0xA0 + n)]
  else if n < 2 ^ 8 then 0xD9 :: toBE 1 n
  else if n < 2 ^ 16 then 0xDA :: toBE 2 n
  else 0xDB :: toBE 4 n

def strBytes (s : String) : List UInt8 := s.toUTF8.data.toList

def packStr (s : String) : List UInt8 := packStrHeader (strBytes s).length ++ strBytes s

def packMap (n : Nat) : List UInt8 :=
  if n < 16 then [UInt8.ofNat (0x80 + n)]
  else if n < 2 ^ 16 then 0xDE :: toBE 2 n
  else 0xDF :: toBE 4 n

/-! ## Unpacking -/

/-- The number in the first `w` bytes. -/
def takeBE (w : Nat) (bs : List UInt8) : Option (Nat × List UInt8) :=
  if bs.length < w then none else some (ofBE (bs.take w), bs.drop w)

def unpackUint : List UInt8 → Option (Nat × List UInt8)
  | [] => none
  | b :: bs =>
    if b.toNat < 2 ^ 7 then some (b.toNat, bs)
    else if b = 0xCC then takeBE 1 bs
    else if b = 0xCD then takeBE 2 bs
    else if b = 0xCE then takeBE 4 bs
    else if b = 0xCF then takeBE 8 bs
    else none

def unpackStrHeader : List UInt8 → Option (Nat × List UInt8)
  | [] => none
  | b :: bs =>
    if 0xA0 ≤ b.toNat ∧ b.toNat < 0xA0 + 32 then some (b.toNat - 0xA0, bs)
    else if b = 0xD9 then takeBE 1 bs
    else if b = 0xDA then takeBE 2 bs
    else if b = 0xDB then takeBE 4 bs
    else none

def unpackStr (bs : List UInt8) : Option (String × List UInt8) :=
  match unpackStrHeader bs with
  | none => none
  | some (n, bs) =>
    if bs.length < n then none
    else (String.fromUTF8? (bs.take n).toByteArray).map fun s => (s, bs.drop n)

def unpackMap : List UInt8 → Option (Nat × List UInt8)
  | [] => none
  | b :: bs =>
    if 0x80 ≤ b.toNat ∧ b.toNat < 0x80 + 16 then some (b.toNat - 0x80, bs)
    else if b = 0xDE then takeBE 2 bs
    else if b = 0xDF then takeBE 4 bs
    else none

/-! ## Round trips -/

theorem takeBE_toBE {w n : Nat} (h : n < 2 ^ (8 * w)) (bs : List UInt8) :
    takeBE w (toBE w n ++ bs) = some (n, bs) := by
  have hlen : ¬ (toBE w n ++ bs).length < w := by simp
  rw [takeBE, if_neg hlen, List.take_left' (length_toBE w n), List.drop_left' (length_toBE w n),
    ofBE_toBE_of_lt h]

theorem ofNat_toNat {n : Nat} (h : n < 2 ^ 8) : (UInt8.ofNat n).toNat = n := by
  rw [UInt8.toNat_ofNat', Nat.mod_eq_of_lt h]

theorem unpackUint_packUint {n : Nat} (h : n < 2 ^ 64) (bs : List UInt8) :
    unpackUint (packUint n ++ bs) = some (n, bs) := by
  unfold packUint
  split
  · next hfix =>
    rw [List.singleton_append, unpackUint, ofNat_toNat (by omega), if_pos hfix]
  · split
    · next h8 => exact takeBE_toBE (w := 1) h8 bs
    · split
      · next h16 => exact takeBE_toBE (w := 2) h16 bs
      · split
        · next h32 => exact takeBE_toBE (w := 4) h32 bs
        · exact takeBE_toBE (w := 8) h bs

theorem unpackStrHeader_packStrHeader {n : Nat} (h : n < 2 ^ 32) (bs : List UInt8) :
    unpackStrHeader (packStrHeader n ++ bs) = some (n, bs) := by
  unfold packStrHeader
  split
  · next hfix =>
    rw [List.singleton_append, unpackStrHeader, ofNat_toNat (by omega), if_pos (by omega),
      Nat.add_sub_cancel_left]
  · split
    · next h8 => exact takeBE_toBE (w := 1) h8 bs
    · split
      · next h16 => exact takeBE_toBE (w := 2) h16 bs
      · exact takeBE_toBE (w := 4) h bs

theorem toByteArray_strBytes (s : String) : (strBytes s).toByteArray = s.toUTF8 := by
  apply ByteArray.ext
  rw [strBytes, List.data_toByteArray, Array.toArray_toList]

theorem fromUTF8?_toUTF8 (s : String) : String.fromUTF8? s.toUTF8 = some s := by
  rw [String.fromUTF8?, String.toUTF8_eq_toByteArray, dif_pos s.isValidUTF8]
  rfl

theorem unpackStr_packStr {s : String} (h : (strBytes s).length < 2 ^ 32) (bs : List UInt8) :
    unpackStr (packStr s ++ bs) = some (s, bs) := by
  have hlen : ¬ (strBytes s ++ bs).length < (strBytes s).length := by simp
  simp only [unpackStr, packStr, List.append_assoc, unpackStrHeader_packStrHeader h, if_neg hlen,
    List.take_left, List.drop_left, toByteArray_strBytes, fromUTF8?_toUTF8, Option.map_some]

theorem unpackMap_packMap {n : Nat} (h : n < 2 ^ 32) (bs : List UInt8) :
    unpackMap (packMap n ++ bs) = some (n, bs) := by
  unfold packMap
  split
  · next hfix =>
    rw [List.singleton_append, unpackMap, ofNat_toNat (by omega), if_pos (by omega),
      Nat.add_sub_cancel_left]
  · split
    · next h16 => exact takeBE_toBE (w := 2) h16 bs
    · exact takeBE_toBE (w := 4) h bs

end Xmap.Lib.Msgpack
