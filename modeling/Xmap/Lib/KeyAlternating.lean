import Mathlib.Tactic

/-!
# Key-alternating ciphers

A cipher adds a key, and then for each further key substitutes, mixes and adds the key. The last round does not
mix. With the keys in the other order, and those in the middle mixed back, the inverse steps run in the same order
as the steps do.
-/

namespace Xmap.Lib

universe u v

/-- The steps of a round, and what undoes them. -/
structure RoundSteps (K : Type u) (V : Type v) where
  addKey : K → V → V
  sub : V → V
  subInv : V → V
  mix : V → V
  mixInv : V → V
  mixKeyInv : K → K
  addKey_addKey : ∀ k v, addKey k (addKey k v) = v
  subInv_sub : ∀ v, subInv (sub v) = v
  mixInv_mix : ∀ v, mixInv (mix v) = v
  mixInv_addKey : ∀ k v, mixInv (addKey k v) = addKey (mixKeyInv k) (mixInv v)

namespace RoundSteps

variable {K : Type u} {V : Type v} (R : RoundSteps K V)

def round (v : V) (k : K) : V := R.addKey k (R.mix (R.sub v))

def roundInv (v : V) (k : K) : V := R.addKey k (R.mixInv (R.subInv v))

def encrypt (first : K) (middle : List K) (last : K) (v : V) : V :=
  R.addKey last (R.sub (middle.foldl R.round (R.addKey first v)))

/-- The same with the inverse steps. -/
def decrypt (first : K) (middle : List K) (last : K) (v : V) : V :=
  R.addKey last (R.subInv (middle.foldl R.roundInv (R.addKey first v)))

def inverseKeys (middle : List K) : List K := middle.reverse.map R.mixKeyInv

theorem roundInv_sub_round (k : K) (v : V) : R.roundInv (R.sub (R.round v k)) (R.mixKeyInv k) = R.sub v := by
  rw [roundInv, R.subInv_sub, round, R.mixInv_addKey, R.addKey_addKey, R.mixInv_mix]

/-- The rounds are undone one by one, from the last on. -/
theorem foldl_roundInv (middle : List K) (v : V) :
    (R.inverseKeys middle).foldl R.roundInv (R.sub (middle.foldl R.round v)) = R.sub v := by
  induction middle generalizing v with
  | nil => rfl
  | cons k middle ih =>
    rw [List.foldl_cons, inverseKeys, List.reverse_cons, List.map_append, List.foldl_append]
    have hrest := ih (R.round v k)
    rw [inverseKeys] at hrest
    rw [hrest]
    exact R.roundInv_sub_round k v

theorem decrypt_encrypt (first : K) (middle : List K) (last : K) (v : V) :
    R.decrypt last (R.inverseKeys middle) first (R.encrypt first middle last v) = v := by
  rw [decrypt, encrypt, R.addKey_addKey, foldl_roundInv, R.subInv_sub, R.addKey_addKey]

theorem encrypt_injective (first : K) (middle : List K) (last : K) :
    Function.Injective (R.encrypt first middle last) :=
  Function.LeftInverse.injective (R.decrypt_encrypt first middle last)

end RoundSteps

end Xmap.Lib
