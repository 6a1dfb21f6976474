import Xmap.Cipher.EncryptTheorems
import Xmap.Probe.Probe

/-!
# Validation words (`xm_validate`)

The words for two addresses are their encryption under the key of the scan. The block that is encrypted is static,
and a call writes the first two of its words only.
-/

namespace Xmap.Cipher

open Xmap.Lib Xmap.Probe

/-- The static variables of the file. -/
structure XmValidate where
  aesInput : Fin 4 → UInt32
  aesSched : List UInt32

/-- `xm_validate_init`, with what it finds in `key` after `xm_random_bytes`. -/
def xmValidateInit (key : Nat → UInt8) : XmValidate := ⟨fun _ => 0, (rijndaelKeySetupEnc key 128).1⟩

def xmValidateGen (src dst : UInt32) (v : XmValidate) : Validation × XmValidate :=
  let aesInput := Function.update (Function.update v.aesInput 0 src) 1 dst
  (wordsOf (rijndaelEncrypt v.aesSched 10 (bytesOf aesInput)), { v with aesInput := aesInput })

/-- The state after calls for some pairs of addresses. -/
def afterCalls (key : Nat → UInt8) (calls : List (UInt32 × UInt32)) : XmValidate :=
  calls.foldl (fun v c => (xmValidateGen c.1 c.2 v).2) (xmValidateInit key)

/-- What a call returns that no other came before. -/
def validationOf (key : Nat → UInt8) (src dst : UInt32) : Validation := (xmValidateGen src dst (xmValidateInit key)).1

section
variable {key : Nat → UInt8} {calls : List (UInt32 × UInt32)}

/-! ## Blocks in memory -/

theorem bytesOf_wordsOf (b : Block) : bytesOf (wordsOf b) = b := by
  funext i
  rw [bytesOf, wordsOf, byteOf_wordOf]
  fin_cases i <;> rfl

theorem wordsOf_injective : Function.Injective wordsOf := Function.LeftInverse.injective bytesOf_wordsOf

theorem wordsOf_bytesOf (w : Fin 4 → UInt32) : wordsOf (bytesOf w) = w := by
  funext k
  have hbytes : (fun r : Fin 4 => bytesOf w (Fin.ofNat 16 (4 * k.val + (3 - r.val)))) = byteOf (w k) := by
    funext r
    fin_cases k <;> fin_cases r <;> rfl
  rw [wordsOf, hbytes, wordOf_byteOf]

/-! ## Calls -/

/-- No call writes the schedule or the last two words of the block. -/
theorem afterCalls_spec (key : Nat → UInt8) (calls : List (UInt32 × UInt32)) :
    (afterCalls key calls).aesSched = (xmValidateInit key).aesSched ∧ (afterCalls key calls).aesInput 2 = 0 ∧
      (afterCalls key calls).aesInput 3 = 0 := by
  induction calls using List.reverseRecOn with
  | nil => exact ⟨rfl, rfl, rfl⟩
  | append_singleton calls c ih =>
    rw [afterCalls, List.foldl_append]
    exact ih

theorem xmValidateGen_afterCalls (key : Nat → UInt8) (calls : List (UInt32 × UInt32)) (src dst : UInt32) :
    (xmValidateGen src dst (afterCalls key calls)).1 = validationOf key src dst := by
  obtain ⟨hsched, h2, h3⟩ := afterCalls_spec key calls
  have hinput : Function.update (Function.update (afterCalls key calls).aesInput 0 src) 1 dst =
      Function.update (Function.update (xmValidateInit key).aesInput 0 src) 1 dst := by
    funext i
    fin_cases i
    · rfl
    · rfl
    · exact h2
    · exact h3
  rw [validationOf, xmValidateGen, xmValidateGen, hsched, hinput]

theorem validationOf_inj {src dst src' dst' : UInt32} (h : validationOf key src dst = validationOf key src' dst') :
    src = src' ∧ dst = dst' := by
  have hblock := rijndaelEncrypt_injective _ (by decide) (by decide) (wordsOf_injective h)
  have hwords := congrArg wordsOf hblock
  rw [wordsOf_bytesOf, wordsOf_bytesOf] at hwords
  exact ⟨congrFun hwords 0, congrFun hwords 1⟩

end

/-- Whatever calls came before, two calls return the same words if and only if they are for the same addresses. -/
theorem xmValidateGen_eq_iff (key : Nat → UInt8) (calls calls' : List (UInt32 × UInt32))
    (src dst src' dst' : UInt32) :
    (xmValidateGen src dst (afterCalls key calls)).1 = (xmValidateGen src' dst' (afterCalls key calls')).1 ↔
      src = src' ∧ dst = dst' := by
  rw [xmValidateGen_afterCalls, xmValidateGen_afterCalls]
  constructor
  · exact validationOf_inj
  · rintro ⟨rfl, rfl⟩
    rfl

end Xmap.Cipher
