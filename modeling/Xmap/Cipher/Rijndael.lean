import Xmap.Cipher.Tables
import Xmap.Lib.WordBytes

/-!
# The cipher (`rijndael-alg-fst.c`)

Encryption and decryption by tables, and the schedules of keys of 128, 192 and 256 bits. A schedule is the list of
its words; the pointer `rk` is an offset into it. The state is four words.
-/

namespace Xmap.Cipher

open Xmap.Lib

abbrev Block := Fin 16 → UInt8

/-- The words `s0` to `s3`. -/
structure Words where
  s0 : UInt32
  s1 : UInt32
  s2 : UInt32
  s3 : UInt32
deriving DecidableEq, Repr

def Words.ofFn (f : Fin 4 → UInt32) : Words := ⟨f 0, f 1, f 2, f 3⟩

def Words.word (s : Words) : Fin 4 → UInt32
  | 0 => s.s0
  | 1 => s.s1
  | 2 => s.s2
  | 3 => s.s3

@[simp] theorem Words.word_ofFn (f : Fin 4 → UInt32) : (Words.ofFn f).word = f := by
  funext c
  fin_cases c <;> rfl

/-- `GETU32`. -/
def getU32 (p : Nat → UInt8) : UInt32 :=
  ((p 0).toUInt32 <<< 24) ^^^ ((p 1).toUInt32 <<< 16) ^^^ ((p 2).toUInt32 <<< 8) ^^^ (p 3).toUInt32

/-- The byte at `i` that `PUTU32` writes. -/
def putU32 (st : UInt32) : Fin 4 → UInt8
  | 0 => (st >>> 24).toUInt8
  | 1 => (st >>> 16).toUInt8
  | 2 => (st >>> 8).toUInt8
  | 3 => st.toUInt8

/-- The bytes of four words in memory, the lowest byte of a word first. -/
def bytesOf (w : Fin 4 → UInt32) : Block := fun i =>
  byteOf (w (Fin.ofNat 4 (i.val / 4))) (Fin.ofNat 4 (3 - i.val % 4))

/-- The words of the machine that a block holds. -/
def wordsOf (b : Block) : Fin 4 → UInt32 := fun k => wordOf fun r => b (Fin.ofNat 16 (4 * k.val + (3 - r.val)))

def entry (t : List UInt32) (i : UInt32) : UInt32 := t.getD i.toNat 0

def entryMask (t : List UInt32) (i mask : UInt32) : UInt32 := entry t i &&& mask

/-! ## Encryption -/

/-- The words after a round. -/
def encRound (rk : List UInt32) (off : Nat) (s : Words) : Words := .ofFn fun c =>
  entry Te0 (s.word c >>> 24) ^^^ entry Te1 (s.word (c + 1) >>> 16 &&& 0xff) ^^^
    entry Te2 (s.word (c + 2) >>> 8 &&& 0xff) ^^^ entry Te3 (s.word (c + 3) &&& 0xff) ^^^ rk.getD (off + c.val) 0

/-- The loop over pairs of rounds, with `r + 1` to go. It ends in the middle of the last pair, with the offset. -/
def rounds (round : Nat → Words → Words) : Nat → Nat → Words → Nat × Words
  | 0, off, s => (off + 8, round (off + 4) s)
  | r + 1, off, s => rounds round r (off + 8) (round (off + 8) (round (off + 4) s))

def encRounds (rk : List UInt32) : Nat → Nat → Words → Nat × Words := rounds (encRound rk)

def encLast (rk : List UInt32) (off : Nat) (t : Words) : Words := .ofFn fun c =>
  entryMask Te4 (t.word c >>> 24) 0xff000000 ^^^ entryMask Te4 (t.word (c + 1) >>> 16 &&& 0xff) 0x00ff0000 ^^^
    entryMask Te4 (t.word (c + 2) >>> 8 &&& 0xff) 0x0000ff00 ^^^
    entryMask Te4 (t.word (c + 3) &&& 0xff) 0x000000ff ^^^ rk.getD (off + c.val) 0

/-- The words of a block, with the first key added. -/
def firstWords (rk : List UInt32) (b : Block) : Words := .ofFn fun c =>
  getU32 (fun i => b (Fin.ofNat 16 (4 * c.val + i))) ^^^ rk.getD c.val 0

def blockOf (s : Words) : Block := fun i => putU32 (s.word (Fin.ofNat 4 (i.val / 4))) (Fin.ofNat 4 i.val)

/-- `rijndaelEncrypt` with at least two rounds. -/
def rijndaelEncrypt (rk : List UInt32) (nr : Nat) (pt : Block) : Block :=
  let r := encRounds rk (nr / 2 - 1) 0 (firstWords rk pt)
  blockOf (encLast rk r.1 r.2)

/-! ## Decryption -/

def decRound (rk : List UInt32) (off : Nat) (s : Words) : Words := .ofFn fun c =>
  entry Td0 (s.word c >>> 24) ^^^ entry Td1 (s.word (c + 3) >>> 16 &&& 0xff) ^^^
    entry Td2 (s.word (c + 2) >>> 8 &&& 0xff) ^^^ entry Td3 (s.word (c + 1) &&& 0xff) ^^^ rk.getD (off + c.val) 0

def decRounds (rk : List UInt32) : Nat → Nat → Words → Nat × Words := rounds (decRound rk)

def decLast (rk : List UInt32) (off : Nat) (t : Words) : Words := .ofFn fun c =>
  entryMask Td4 (t.word c >>> 24) 0xff000000 ^^^ entryMask Td4 (t.word (c + 3) >>> 16 &&& 0xff) 0x00ff0000 ^^^
    entryMask Td4 (t.word (c + 2) >>> 8 &&& 0xff) 0x0000ff00 ^^^
    entryMask Td4 (t.word (c + 1) &&& 0xff) 0x000000ff ^^^ rk.getD (off + c.val) 0

/-- `rijndaelDecrypt` with at least two rounds. -/
def rijndaelDecrypt (rk : List UInt32) (nr : Nat) (ct : Block) : Block :=
  let r := decRounds rk (nr / 2 - 1) 0 (firstWords rk ct)
  blockOf (decLast rk r.1 r.2)

/-! ## Schedules -/

def rotSubWord (temp : UInt32) : UInt32 :=
  entryMask Te4 (temp >>> 16 &&& 0xff) 0xff000000 ^^^ entryMask Te4 (temp >>> 8 &&& 0xff) 0x00ff0000 ^^^
    entryMask Te4 (temp &&& 0xff) 0x0000ff00 ^^^ entryMask Te4 (temp >>> 24) 0x000000ff

def subWord (temp : UInt32) : UInt32 :=
  entryMask Te4 (temp >>> 24) 0xff000000 ^^^ entryMask Te4 (temp >>> 16 &&& 0xff) 0x00ff0000 ^^^
    entryMask Te4 (temp >>> 8 &&& 0xff) 0x0000ff00 ^^^ entryMask Te4 (temp &&& 0xff) 0x000000ff

/-- Four words, each the sum of the one before it and a word of the schedule from `off` on. -/
def chain4 (rk : List UInt32) (off : Nat) (first : UInt32) : List UInt32 :=
  let w0 := rk.getD off 0 ^^^ first
  let w1 := rk.getD (off + 1) 0 ^^^ w0
  let w2 := rk.getD (off + 2) 0 ^^^ w1
  let w3 := rk.getD (off + 3) 0 ^^^ w2
  [w0, w1, w2, w3]

/-- The first four words of round `i` of the loops; `nk` is the number of words of the key. -/
def keyHead (nk i : Nat) (rk : List UInt32) : List UInt32 :=
  rk ++ chain4 rk (nk * i) (rotSubWord (rk.getD (nk * i + (nk - 1)) 0) ^^^ rcon.getD i 0)

/-- `rk[10]` and `rk[11]` with 192 bits. -/
def keyTail192 (i : Nat) (rk : List UInt32) : List UInt32 :=
  let w10 := rk.getD (6 * i + 4) 0 ^^^ rk.getD (6 * i + 9) 0
  let w11 := rk.getD (6 * i + 5) 0 ^^^ w10
  rk ++ [w10, w11]

/-- `rk[12]` to `rk[15]` with 256 bits. -/
def keyTail256 (i : Nat) (rk : List UInt32) : List UInt32 :=
  rk ++ chain4 rk (8 * i + 4) (subWord (rk.getD (8 * i + 11) 0))

def keyWords (n : Nat) (cipherKey : Nat → UInt8) : List UInt32 :=
  (List.range n).map fun j => getU32 fun i => cipherKey (4 * j + i)

/-- `rijndaelKeySetupEnc`: the schedule and the number of rounds. -/
def rijndaelKeySetupEnc (cipherKey : Nat → UInt8) (keyBits : Nat) : List UInt32 × Nat :=
  if keyBits = 128 then ((List.range 10).foldl (fun rk i => keyHead 4 i rk) (keyWords 4 cipherKey), 10)
  else if keyBits = 192 then
    (keyHead 6 7 ((List.range 7).foldl (fun rk i => keyTail192 i (keyHead 6 i rk)) (keyWords 6 cipherKey)), 12)
  else if keyBits = 256 then
    (keyHead 8 6 ((List.range 6).foldl (fun rk i => keyTail256 i (keyHead 8 i rk)) (keyWords 8 cipherKey)), 14)
  else (keyWords 8 cipherKey, 0)

/-- A word of a round key with the inverse transform of the columns. -/
def invMixWord (w : UInt32) : UInt32 :=
  entry Td0 (entryMask Te4 (w >>> 24) 0xff) ^^^ entry Td1 (entryMask Te4 (w >>> 16 &&& 0xff) 0xff) ^^^
    entry Td2 (entryMask Te4 (w >>> 8 &&& 0xff) 0xff) ^^^ entry Td3 (entryMask Te4 (w &&& 0xff) 0xff)

def swapWords (i j : Nat) (rk : List UInt32) : List UInt32 := (rk.set i (rk.getD j 0)).set j (rk.getD i 0)

/-- A round of the loop that swaps round keys, with `i = 4 * k` and `j = 4 * (Nr - k)`. -/
def swapKeys (nr k : Nat) (rk : List UInt32) : List UInt32 :=
  (List.range 4).foldl (fun rk c => swapWords (4 * k + c) (4 * (nr - k) + c) rk) rk

/-- The loop goes on while `i < j`. -/
def invertOrder (nr : Nat) (rk : List UInt32) : List UInt32 :=
  (List.range ((nr + 1) / 2)).foldl (fun rk k => swapKeys nr k rk) rk

/-- The inverse transform of the columns on all round keys but the first and the last. -/
def invMixKeys (nr : Nat) (rk : List UInt32) : List UInt32 :=
  rk.mapIdx fun i w => if 4 ≤ i ∧ i < 4 * nr then invMixWord w else w

/-- `rijndaelKeySetupDec`. -/
def rijndaelKeySetupDec (cipherKey : Nat → UInt8) (keyBits : Nat) : List UInt32 × Nat :=
  let r := rijndaelKeySetupEnc cipherKey keyBits
  (invMixKeys r.2 (invertOrder r.2 r.1), r.2)

end Xmap.Cipher
