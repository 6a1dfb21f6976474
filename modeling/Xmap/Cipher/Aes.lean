import Xmap.Lib.Gf256
import Xmap.Lib.KeyAlternating
import Xmap.Lib.WordBytes

/-!
# The cipher by its definition

Rijndael on blocks of 16 bytes, as four columns of four bytes. The S-box is the inverse in the field and an affine
map, and the columns are multiplied by a matrix over the field.
-/

namespace Xmap.Cipher

open Xmap.Lib

/-- Columns of bytes. -/
abbrev State := Fin 4 → Fin 4 → UInt8

def mulByte (c : Nat) (x : UInt8) : UInt8 := UInt8.ofNat (gmul c x.toNat)

def rotateByte (a k : Nat) : Nat := a * 2 ^ k % 256 + a / 2 ^ (8 - k)

def affine (a : Nat) : Nat :=
  a ^^^ rotateByte a 1 ^^^ rotateByte a 2 ^^^ rotateByte a 3 ^^^ rotateByte a 4 ^^^ 0x63

def sbox (x : UInt8) : UInt8 := UInt8.ofNat (affine (ginv x.toNat))

noncomputable def sboxInv : UInt8 → UInt8 := Function.invFun sbox

/-! ## Steps -/

def subBytes (s : State) : State := fun c r => sbox (s c r)

noncomputable def invSubBytes (s : State) : State := fun c r => sboxInv (s c r)

/-- Row `r` moves by `r` columns. -/
def shiftRows (s : State) : State := fun c r => s (c + r) r

def invShiftRows (s : State) : State := fun c r => s (c - r) r

/-- The columns times the matrix with `coef (k - r)` in row `r` and column `k`. -/
def mulColumns (coef : Fin 4 → Nat) (s : State) : State := fun c r =>
  mulByte (coef (0 - r)) (s c 0) ^^^ mulByte (coef (1 - r)) (s c 1) ^^^ mulByte (coef (2 - r)) (s c 2) ^^^
    mulByte (coef (3 - r)) (s c 3)

def mixCoef : Fin 4 → Nat := ![2, 3, 1, 1]

def invMixCoef : Fin 4 → Nat := ![14, 11, 13, 9]

def mixColumns : State → State := mulColumns mixCoef

def invMixColumns : State → State := mulColumns invMixCoef

def addRoundKey (k s : State) : State := fun c r => s c r ^^^ k c r

/-! ## Keys -/

/-- A word of the schedule, or of the key: four bytes. -/
abbrev Column := Fin 4 → UInt8

def rotWord (w : Column) : Column := fun r => w (r + 1)

def subColumn (w : Column) : Column := fun r => sbox (w r)

def rconColumn (i : Nat) : Column := fun r => if r = 0 then UInt8.ofNat (xtime^[i - 1] 1) else 0

/-- What is added to the word `nk` places before word `i`; `w` is the word before it. -/
def keyTemp (nk i : Nat) (w : Column) : Column :=
  if i % nk = 0 then fun r => subColumn (rotWord w) r ^^^ rconColumn (i / nk) r
  else if 6 < nk ∧ i % nk = 4 then subColumn w else w

/-- Word `i` of the schedule of a key of `nk` words. -/
def keyWord (nk : Nat) (key : Nat → UInt8) (i : Nat) : Column :=
  if h : i < nk ∨ nk = 0 then fun r => key (4 * i + r.val)
  else fun r => keyWord nk key (i - nk) r ^^^ keyTemp nk i (keyWord nk key (i - 1)) r
termination_by i
decreasing_by all_goals omega

/-- Round key `i`. -/
def roundKey (nk : Nat) (key : Nat → UInt8) (i : Nat) : State := fun c => keyWord nk key (4 * i + c.val)

end Xmap.Cipher
