import Xmap.Cipher.Lemmas.Rounds

/-!
# Theorems on encryption and decryption

What the tables compute is the cipher of the definition, for any schedule, and the inverse cipher with the steps in
the same order.
-/

namespace Xmap.Cipher

open Xmap.Lib

def toState (b : Block) : State := fun c r => b (Fin.ofNat 16 (4 * c.val + r.val))

def ofState (s : State) : Block := fun i => s (Fin.ofNat 4 (i.val / 4)) (Fin.ofNat 4 i.val)

/-- The keys of the rounds between the first and the last. -/
def middleKeys (nr : Nat) (w : Nat → State) : List State := (List.range (nr - 1)).map fun i => w (i + 1)

/-- The cipher with `nr` rounds and the round keys `w 0` to `w nr`. -/
noncomputable def aesCipher (nr : Nat) (w : Nat → State) (b : Block) : Block :=
  ofState (aesSteps.encrypt (w 0) (middleKeys nr w) (w nr) (toState b))

/-- The inverse cipher, with its round keys in the order in which they are used. -/
noncomputable def aesInvCipher (nr : Nat) (w : Nat → State) (b : Block) : Block :=
  ofState (aesSteps.decrypt (w 0) (middleKeys nr w) (w nr) (toState b))

section
variable {rk : List UInt32} {nr : Nat}

/-! ## Blocks -/

theorem toState_ofState (s : State) : toState (ofState s) = s := by
  funext c r
  fin_cases c <;> fin_cases r <;> rfl

theorem ofState_toState (b : Block) : ofState (toState b) = b := by
  funext i
  fin_cases i <;> rfl

theorem byteOf_getU32 (p : Nat → UInt8) (r : Fin 4) : byteOf (getU32 p) r = p r.val :=
  byteOf_wordOf (fun i => p i.val) r

theorem putU32_eq (st : UInt32) (r : Fin 4) : putU32 st r = byteOf st r := by
  apply UInt8.toNat_inj.mp
  rw [byteOf_toNat]
  fin_cases r <;> simp [putU32, UInt32.toNat_shiftRight, Nat.shiftRight_eq_div_pow]

theorem stateOf_firstWords (rk : List UInt32) (b : Block) :
    stateOf (firstWords rk b) = aesSteps.addKey (keyState rk 0) (toState b) := by
  funext c r
  simp only [stateOf, firstWords, Words.word_ofFn, byteOf_xor, byteOf_getU32, aesSteps, addRoundKey, toState,
    keyState, Nat.zero_add]

theorem blockOf_eq (s : Words) : blockOf s = ofState (stateOf s) := by
  funext i
  rw [blockOf, putU32_eq]
  rfl

/-! ## The loops -/

/-- The round keys of a schedule from an offset on. -/
def keysFrom (rk : List UInt32) (off n : Nat) : List State :=
  (List.range n).map fun i => keyState rk (off + 4 * (i + 1))

theorem keysFrom_add_two (rk : List UInt32) (off n : Nat) :
    keysFrom rk off (n + 2) = keyState rk (off + 4) :: keyState rk (off + 8) :: keysFrom rk (off + 8) n := by
  simp only [keysFrom, List.range_succ_eq_map, List.map_cons, List.map_map]
  refine List.cons_eq_cons.mpr ⟨rfl, List.cons_eq_cons.mpr ⟨rfl, List.map_congr_left fun i _ => ?_⟩⟩
  simp only [Function.comp_apply]
  congr 1
  omega

/-- A loop of rounds goes through the keys, and ends at the one behind them. -/
theorem rounds_spec {round : Nat → Words → Words} {f : State → State → State}
    (hround : ∀ off s, stateOf (round off s) = f (stateOf s) (keyState rk off)) (r off : Nat) (s : Words) :
    (rounds round r off s).1 = off + 8 * (r + 1) ∧
      stateOf (rounds round r off s).2 = (keysFrom rk off (2 * r + 1)).foldl f (stateOf s) := by
  induction r generalizing off s with
  | zero => exact ⟨rfl, hround _ _⟩
  | succ r ih =>
    obtain ⟨hoff, hstate⟩ := ih (off + 8) (round (off + 8) (round (off + 4) s))
    rw [rounds]
    refine ⟨by omega, ?_⟩
    rw [hstate, hround, hround, show 2 * (r + 1) + 1 = (2 * r + 1) + 2 by omega, keysFrom_add_two]
    rfl

theorem keysFrom_zero (rk : List UInt32) (nr : Nat) :
    keysFrom rk 0 (nr - 1) = middleKeys nr fun i => keyState rk (4 * i) := by
  simp only [keysFrom, middleKeys, Nat.zero_add]

end

/-- Encryption by tables is the cipher, whatever the schedule holds. -/
theorem rijndaelEncrypt_eq_aesCipher (rk : List UInt32) {nr : Nat} (h2 : 2 ≤ nr) (heven : nr % 2 = 0) (pt : Block) :
    rijndaelEncrypt rk nr pt = aesCipher nr (fun i => keyState rk (4 * i)) pt := by
  obtain ⟨hoff, hstate⟩ := rounds_spec (stateOf_encRound rk) (nr / 2 - 1) 0 (firstWords rk pt)
  have hlast : 0 + 8 * (nr / 2 - 1 + 1) = 4 * nr := by omega
  have hcount : 2 * (nr / 2 - 1) + 1 = nr - 1 := by omega
  rw [rijndaelEncrypt, encRounds, blockOf_eq, stateOf_encLast, hoff, hstate, hlast, hcount, keysFrom_zero,
    stateOf_firstWords]
  rfl

theorem rijndaelDecrypt_eq_aesInvCipher (rk : List UInt32) {nr : Nat} (h2 : 2 ≤ nr) (heven : nr % 2 = 0)
    (ct : Block) :
    rijndaelDecrypt rk nr ct = aesInvCipher nr (fun i => keyState rk (4 * i)) ct := by
  obtain ⟨hoff, hstate⟩ := rounds_spec (stateOf_decRound rk) (nr / 2 - 1) 0 (firstWords rk ct)
  have hlast : 0 + 8 * (nr / 2 - 1 + 1) = 4 * nr := by omega
  have hcount : 2 * (nr / 2 - 1) + 1 = nr - 1 := by omega
  rw [rijndaelDecrypt, decRounds, blockOf_eq, stateOf_decLast, hoff, hstate, hlast, hcount, keysFrom_zero,
    stateOf_firstWords]
  rfl

theorem aesCipher_injective (nr : Nat) (w : Nat → State) : Function.Injective (aesCipher nr w) := by
  intro b c h
  have hstate := congrArg toState h
  rw [aesCipher, aesCipher, toState_ofState, toState_ofState] at hstate
  have heq := aesSteps.encrypt_injective _ _ _ hstate
  rw [← ofState_toState b, heq, ofState_toState]

/-- Different blocks are encrypted differently, whatever the schedule holds. -/
theorem rijndaelEncrypt_injective (rk : List UInt32) {nr : Nat} (h2 : 2 ≤ nr) (heven : nr % 2 = 0) :
    Function.Injective (rijndaelEncrypt rk nr) := by
  intro b c h
  rw [rijndaelEncrypt_eq_aesCipher rk h2 heven, rijndaelEncrypt_eq_aesCipher rk h2 heven] at h
  exact aesCipher_injective _ _ h

end Xmap.Cipher
