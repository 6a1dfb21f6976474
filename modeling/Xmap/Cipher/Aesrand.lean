import Xmap.Cipher.KeyTheorems
import Xmap.Probe.Probe
import Xmap.Target.Cyclic

/-!
# The random generator (`xm_aesrand`)

The generator encrypts its last output again for each word. The key is the seed, or random bytes.
-/

namespace Xmap.Cipher

open Xmap.Lib

def AES_ROUNDS : Nat := 10
def AES_KEY_BITS : Nat := 128

structure XmAesrand where
  input : Block
  sched : List UInt32
  output : Block

/-- `_aesrand_init`. -/
def aesrandInit (key : Nat → UInt8) : Option XmAesrand :=
  let r := rijndaelKeySetupEnc key AES_KEY_BITS
  if r.2 ≠ AES_ROUNDS then none else some ⟨fun _ => 0, r.1, fun _ => 0⟩

/-- The bytes of the seed, the lowest first, and zeros. -/
def seedKey (seed : UInt64) (i : Nat) : UInt8 := if i < 8 then (seed >>> UInt64.ofNat (8 * i)).toUInt8 else 0

def xmAesrandCreateFromSeed (seed : UInt64) : Option XmAesrand := aesrandInit (seedKey seed)

/-- With the key that `xm_random_bytes` reads, if it can. -/
def xmAesrandCreateFromRandom (xmRandomBytes : Option (Nat → UInt8)) : Option XmAesrand :=
  xmRandomBytes.bind aesrandInit

/-- The first eight bytes of a block as a word of the machine. -/
def firstWord (b : Block) : Nat := (wordsOf b 0).toNat + 2 ^ 32 * (wordsOf b 1).toNat

def xmAesrandGetword (aes : XmAesrand) : Nat × XmAesrand :=
  let output := rijndaelEncrypt aes.sched AES_ROUNDS aes.output
  (firstWord output, { aes with input := aes.output, output := output })

/-- The generator after some words. -/
def XmAesrand.after (aes : XmAesrand) : Nat → XmAesrand
  | 0 => aes
  | n + 1 => (xmAesrandGetword (aes.after n)).2

/-- Word `n` of the generator. -/
def XmAesrand.wordAt (aes : XmAesrand) (n : Nat) : Nat := (xmAesrandGetword (aes.after n)).1

section
variable {aes : XmAesrand}

/-! ## The stream of words -/

theorem firstWord_lt (b : Block) : firstWord b < 2 ^ 64 := by
  have h0 : (wordsOf b 0).toNat < 2 ^ 32 := (wordsOf b 0).toNat_lt
  have h1 : (wordsOf b 1).toNat < 2 ^ 32 := (wordsOf b 1).toNat_lt
  rw [firstWord]
  omega

/-- The words from here on are those that the stream holds from its position on. -/
def Draws (aes : XmAesrand) (s : Target.XmAesrand) : Prop := ∀ n, aes.wordAt n = (s.stream (s.pos + n)).val

/-- The stream of a generator. -/
def XmAesrand.toStream (aes : XmAesrand) : Target.XmAesrand := ⟨fun n => ⟨aes.wordAt n, firstWord_lt _⟩, 0⟩

theorem draws_toStream (aes : XmAesrand) : Draws aes aes.toStream := by
  intro n
  simp [XmAesrand.toStream]

theorem after_getword (aes : XmAesrand) (n : Nat) : (xmAesrandGetword aes).2.after n = aes.after (n + 1) := by
  induction n with
  | zero => rfl
  | succ n ih => exact congrArg (fun a => (xmAesrandGetword a).2) ih

/-- A word of the generator is the word of the stream, and what is left are the words left. -/
theorem Draws.getword {s : Target.XmAesrand} (h : Draws aes s) :
    (xmAesrandGetword aes).1 = (Target.xmAesrandGetword s).1 ∧
      Draws (xmAesrandGetword aes).2 (Target.xmAesrandGetword s).2 := by
  refine ⟨h 0, fun n => ?_⟩
  have hnext : s.pos + 1 + n = s.pos + (n + 1) := by omega
  rw [XmAesrand.wordAt, after_getword]
  simp only [Target.xmAesrandGetword, hnext]
  exact h (n + 1)

end

section

/-! ## Its period -/

theorem finite_byte : Finite UInt8 := Finite.of_injective UInt8.toFin fun _ _ => UInt8.toFin_inj.mp

theorem card_block : Nat.card Block ≤ 2 ^ 128 := by
  have hfin : Finite UInt8 := finite_byte
  have hbyte : Nat.card UInt8 ≤ 256 :=
    (Nat.card_le_card_of_injective UInt8.toFin fun _ _ => UInt8.toFin_inj.mp).trans (by simp)
  calc Nat.card Block = Nat.card UInt8 ^ 16 := by rw [Block, Nat.card_fun, Nat.card_fin]
    _ ≤ 256 ^ 16 := Nat.pow_le_pow_left hbyte 16
    _ = 2 ^ 128 := by norm_num

theorem aesrandInit_some (key : Nat → UInt8) :
    aesrandInit key = some ⟨fun _ => 0, (rijndaelKeySetupEnc key 128).1, fun _ => 0⟩ := by
  have hrounds : (rijndaelKeySetupEnc key 128).2 = 10 := rfl
  simp [aesrandInit, AES_KEY_BITS, AES_ROUNDS, hrounds]

theorem after_sched (aes : XmAesrand) (n : Nat) : (aes.after n).sched = aes.sched := by
  induction n with
  | zero => rfl
  | succ n ih => exact ih

/-- The outputs are the iterates of encryption. -/
theorem after_output (aes : XmAesrand) (n : Nat) :
    (aes.after n).output = (rijndaelEncrypt aes.sched AES_ROUNDS)^[n] aes.output := by
  induction n with
  | zero => rfl
  | succ n ih =>
    rw [Function.iterate_succ_apply', ← ih, ← after_sched aes n]
    rfl

theorem after_add (aes : XmAesrand) (m n : Nat) (h : (aes.after m).output = aes.output) :
    (aes.after (m + n)).output = (aes.after n).output := by
  rw [after_output, Nat.add_comm, Function.iterate_add_apply, ← after_output aes m, h, ← after_output]

end

/-- The generator goes round: after some number of words, 2^128 at most, its output is the first one again, and the
words come again in the same order. Before that no output comes twice. -/
theorem xmAesrandGetword_period (key : Nat → UInt8) : ∃ aes, aesrandInit key = some aes ∧ ∃ p, 0 < p ∧ p ≤ 2 ^ 128 ∧
    (aes.after p).output = aes.output ∧ (∀ n, aes.wordAt (p + n) = aes.wordAt n) ∧
      ∀ i < p, ∀ j < p, (aes.after i).output = (aes.after j).output → i = j := by
  refine ⟨_, aesrandInit_some key, ?_⟩
  generalize haes : (⟨fun _ => 0, (rijndaelKeySetupEnc key 128).1, fun _ => 0⟩ : XmAesrand) = aes
  have hfin : Finite UInt8 := finite_byte
  have hinj : Function.Injective (rijndaelEncrypt aes.sched AES_ROUNDS) :=
    rijndaelEncrypt_injective aes.sched (by decide) rfl
  have hmem := hinj.mem_periodicPts aes.output
  have hround : (aes.after (Function.minimalPeriod (rijndaelEncrypt aes.sched AES_ROUNDS) aes.output)).output =
      aes.output := by
    rw [after_output]
    exact Function.iterate_minimalPeriod
  refine ⟨_, Function.minimalPeriod_pos_of_mem_periodicPts hmem, ?_, hround, fun n => ?_, fun i hi j hj h => ?_⟩
  · have : Fintype Block := Fintype.ofFinite Block
    apply Function.minimalPeriod_le_card.trans
    rw [← Nat.card_eq_fintype_card]
    exact card_block
  · have hword : ∀ n, aes.wordAt n = firstWord (aes.after (n + 1)).output := fun n => rfl
    rw [hword, hword, Nat.add_assoc, after_add aes _ _ hround]
  · rw [after_output, after_output] at h
    exact Function.iterate_injOn_Iio_minimalPeriod hi hj h

end Xmap.Cipher
