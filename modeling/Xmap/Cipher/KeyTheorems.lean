import Xmap.Cipher.EncryptTheorems

/-!
# Theorems on the schedules of keys

The loops of `rijndaelKeySetupEnc` make the words of the definition one after the other. The schedule for decryption
has the round keys in the other order, and what is decrypted is what was encrypted.
-/

namespace Xmap.Cipher

open Xmap.Lib

/-- The words of a list are the first words of the schedule of a key. -/
def Expands (nk : Nat) (key : Nat → UInt8) (rk : List UInt32) : Prop :=
  ∀ j < rk.length, ∀ r, byteOf (rk.getD j 0) r = keyWord nk key j r

section
variable {nk off i : Nat} {key : Nat → UInt8} {rk : List UInt32} {w first : UInt32}

/-! ## Single words -/

theorem keyWord_of_lt (h : i < nk) (r : Fin 4) : keyWord nk key i r = key (4 * i + r.val) := by
  rw [keyWord, dif_pos (.inl h)]

theorem keyWord_of_le (h0 : 0 < nk) (h : nk ≤ i) (r : Fin 4) :
    keyWord nk key i r = keyWord nk key (i - nk) r ^^^ keyTemp nk i (keyWord nk key (i - 1)) r := by
  rw [keyWord, dif_neg (by omega)]

theorem expands_keyWords (nk : Nat) (key : Nat → UInt8) : Expands nk key (keyWords nk key) := by
  intro j hj r
  have hlt : j < nk := by simpa [keyWords] using hj
  have hword : (keyWords nk key).getD j 0 = getU32 fun i => key (4 * j + i) := by
    simp [keyWords, hlt]
  rw [hword, byteOf_getU32, keyWord_of_lt hlt]

theorem getD_append_lt {l l' : List UInt32} {j : Nat} (h : j < l.length) : (l ++ l').getD j 0 = l.getD j 0 := by
  rw [List.getD_eq_getElem?_getD, List.getElem?_append_left h, List.getD_eq_getElem?_getD]

theorem Expands.snoc (h : Expands nk key rk) (h0 : 0 < nk) (hoff : rk.length = off + nk)
    (hw : ∀ r, byteOf w r = byteOf (rk.getD off 0) r ^^^ keyTemp nk rk.length (keyWord nk key (rk.length - 1)) r) :
    Expands nk key (rk ++ [w]) := by
  intro j hj r
  rw [List.length_append, List.length_singleton] at hj
  rcases Nat.lt_or_ge j rk.length with hlt | hge
  · rw [getD_append_lt hlt]
    exact h j hlt r
  · obtain rfl : j = rk.length := by omega
    have hlast : (rk ++ [w]).getD rk.length 0 = w := by simp
    have hsub : rk.length - nk = off := by omega
    rw [hlast, hw, keyWord_of_le h0 (by omega), hsub, h off (by omega)]

/-- A word that is the sum of the one before it and the one `nk` places before it. -/
theorem Expands.snoc_plain (h : Expands nk key rk) (off : Nat) (h0 : 0 < nk) (hoff : rk.length = off + nk)
    (hpos : 0 < rk.length)
    (htemp : rk.length % nk ≠ 0 ∧ ¬ (6 < nk ∧ rk.length % nk = 4)) :
    Expands nk key (rk ++ [rk.getD off 0 ^^^ rk.getD (rk.length - 1) 0]) := by
  apply h.snoc h0 hoff
  intro r
  rw [byteOf_xor, h (rk.length - 1) (by omega), keyTemp, if_neg htemp.1, if_neg htemp.2]

theorem chain4_append (rk : List UInt32) (off : Nat) (first : UInt32) (hlen : off + 3 < rk.length) :
    rk ++ chain4 rk off first =
      let r1 := rk ++ [rk.getD off 0 ^^^ first]
      let r2 := r1 ++ [r1.getD (off + 1) 0 ^^^ r1.getD (r1.length - 1) 0]
      let r3 := r2 ++ [r2.getD (off + 2) 0 ^^^ r2.getD (r2.length - 1) 0]
      r3 ++ [r3.getD (off + 3) 0 ^^^ r3.getD (r3.length - 1) 0] := by
  have hlt : ∀ k ≤ 3, off + k < rk.length := fun k hk => by omega
  simp [chain4, List.getElem?_append_left, hlt]

/-- Four words, of which only the first has something added that is not the word before. -/
theorem Expands.chain4 (h : Expands nk key rk) (h4 : 4 ≤ nk) (hoff : rk.length = off + nk)
    (hfirst : ∀ r, byteOf first r = keyTemp nk rk.length (keyWord nk key (rk.length - 1)) r)
    (htemp : ∀ m, 1 ≤ m → m ≤ 3 → (rk.length + m) % nk ≠ 0 ∧ ¬ (6 < nk ∧ (rk.length + m) % nk = 4)) :
    Expands nk key (rk ++ chain4 rk off first) := by
  have h0 : 0 < nk := by omega
  have h1 : Expands nk key (rk ++ [rk.getD off 0 ^^^ first]) := by
    apply h.snoc h0 hoff
    intro r
    rw [byteOf_xor, hfirst]
  rw [chain4_append rk off first (by omega)]
  have h2 := h1.snoc_plain (off + 1) h0 (by simp; omega) (by simp) (by simpa using htemp 1 le_rfl (by omega))
  have h3 := h2.snoc_plain (off + 2) h0 (by simp; omega) (by simp) (by simpa using htemp 2 (by omega) (by omega))
  exact h3.snoc_plain (off + 3) h0 (by simp; omega) (by simp) (by simpa using htemp 3 (by omega) le_rfl)

/-! ## Rounds of the loops -/

theorem byteOf_rotSubWord (w : UInt32) (r : Fin 4) : byteOf (rotSubWord w) r = sbox (byteOf w (r + 1)) := by
  simp only [rotSubWord, byteOf_xor, byteOf_entryMask _ _ 0 _ _ byteOf_mask0, byteOf_entryMask _ _ 1 _ _ byteOf_mask1,
    byteOf_entryMask _ _ 2 _ _ byteOf_mask2, byteOf_entryMask _ _ 3 _ _ byteOf_mask3, entry_24, entry_0,
    byteOf_shiftRight_16, byteOf_shiftRight_8, byteOf_Te4]
  fin_cases r <;> simp

theorem byteOf_subWord (w : UInt32) (r : Fin 4) : byteOf (subWord w) r = sbox (byteOf w r) := by
  simp only [subWord, byteOf_xor, byteOf_entryMask _ _ 0 _ _ byteOf_mask0, byteOf_entryMask _ _ 1 _ _ byteOf_mask1,
    byteOf_entryMask _ _ 2 _ _ byteOf_mask2, byteOf_entryMask _ _ 3 _ _ byteOf_mask3, entry_24, entry_0,
    byteOf_shiftRight_16, byteOf_shiftRight_8, byteOf_Te4]
  fin_cases r <;> simp

theorem byteOf_rcon : ∀ i : Fin 10, ∀ r, byteOf (rcon.getD i.val 0) r = rconColumn (i.val + 1) r := by
  decide

theorem length_chain4 (rk : List UInt32) (off : Nat) (first : UInt32) : (chain4 rk off first).length = 4 := rfl

theorem length_keyHead : (keyHead nk i rk).length = rk.length + 4 := by
  rw [keyHead, List.length_append, length_chain4]

theorem Expands.keyHead (h : Expands nk key rk) (h4 : 4 ≤ nk) (hlen : rk.length = nk * (i + 1)) (hi : i < 10) :
    Expands nk key (keyHead nk i rk) := by
  have hoff : rk.length = nk * i + nk := by rw [hlen, Nat.mul_succ]
  have hmod : ∀ m < nk, (rk.length + m) % nk = m := by
    intro m hm
    rw [hlen, Nat.mul_add_mod, Nat.mod_eq_of_lt hm]
  apply h.chain4 h4 hoff
  · intro r
    have hzero : rk.length % nk = 0 := hmod 0 (by omega)
    have hdiv : rk.length / nk = i + 1 := by rw [hlen, Nat.mul_div_cancel_left _ (by omega)]
    have hlast : nk * i + (nk - 1) = rk.length - 1 := by omega
    rw [byteOf_xor, byteOf_rotSubWord, byteOf_rcon ⟨i, hi⟩, keyTemp, if_pos hzero, hdiv, hlast,
      h (rk.length - 1) (by omega)]
    rfl
  · intro m h1 h3
    rw [hmod m (by omega)]
    omega

theorem Expands.keyTail192 (h : Expands 6 key rk) (hlen : rk.length = 6 * (i + 1) + 4) :
    Expands 6 key (keyTail192 i rk) := by
  have h1 := h.snoc_plain (6 * i + 4) (by omega) (by omega) (by omega) (by omega)
  have h2 := h1.snoc_plain (6 * i + 5) (by omega) (by simp; omega) (by simp) (by simp; omega)
  have hlast : rk.length - 1 = 6 * i + 9 := by omega
  have hget : (rk ++ [rk.getD (6 * i + 4) 0 ^^^ rk.getD (rk.length - 1) 0]).getD (6 * i + 5) 0 =
      rk.getD (6 * i + 5) 0 := getD_append_lt (by omega)
  rw [hget] at h2
  rw [hlast] at h2
  simpa [Cipher.keyTail192] using h2

theorem Expands.keyTail256 (h : Expands 8 key rk) (hlen : rk.length = 8 * (i + 1) + 4) :
    Expands 8 key (keyTail256 i rk) := by
  apply h.chain4 (by omega) (by omega)
  · intro r
    have hmod : ¬ rk.length % 8 = 0 := by omega
    have hfour : 6 < 8 ∧ rk.length % 8 = 4 := by omega
    have hlast : 8 * i + 11 = rk.length - 1 := by omega
    rw [byteOf_subWord, keyTemp, if_neg hmod, if_pos hfour, hlast, h (rk.length - 1) (by omega)]
    rfl
  · intro m h1 h3
    omega

/-! ## Schedules -/

/-- A loop keeps what its rounds keep. -/
theorem expands_foldl {step : Nat → List UInt32 → List UInt32} {n : Nat}
    (hstep : ∀ i < n, ∀ rk, Expands nk key rk → rk.length = nk * (i + 1) →
      Expands nk key (step i rk) ∧ (step i rk).length = nk * (i + 2)) :
    Expands nk key ((List.range n).foldl (fun rk i => step i rk) (keyWords nk key)) ∧
      ((List.range n).foldl (fun rk i => step i rk) (keyWords nk key)).length = nk * (n + 1) := by
  induction n with
  | zero => exact ⟨expands_keyWords nk key, by simp [keyWords]⟩
  | succ n ih =>
    obtain ⟨hexp, hlen⟩ := ih fun i hi => hstep i (by omega)
    rw [List.range_succ, List.foldl_append]
    exact hstep n (by omega) _ hexp hlen

end

/-- The schedule has four words for each round and four more, and they are those of the definition. -/
theorem rijndaelKeySetupEnc_expands (key : Nat → UInt8) {keyBits : Nat}
    (hbits : keyBits = 128 ∨ keyBits = 192 ∨ keyBits = 256) :
    (rijndaelKeySetupEnc key keyBits).2 = keyBits / 32 + 6 ∧
      (rijndaelKeySetupEnc key keyBits).1.length = 4 * (keyBits / 32 + 7) ∧
        Expands (keyBits / 32) key (rijndaelKeySetupEnc key keyBits).1 := by
  rcases hbits with rfl | rfl | rfl
  · have hstep : ∀ i < 10, ∀ rk, Expands 4 key rk → rk.length = 4 * (i + 1) →
        Expands 4 key (keyHead 4 i rk) ∧ (keyHead 4 i rk).length = 4 * (i + 2) := by
      intro i hi rk h hlen
      exact ⟨h.keyHead le_rfl hlen hi, by rw [length_keyHead]; omega⟩
    obtain ⟨hexp, hlen⟩ := expands_foldl hstep
    exact ⟨rfl, hlen, hexp⟩
  · have hstep : ∀ i < 7, ∀ rk, Expands 6 key rk → rk.length = 6 * (i + 1) →
        Expands 6 key (keyTail192 i (keyHead 6 i rk)) ∧ (keyTail192 i (keyHead 6 i rk)).length = 6 * (i + 2) := by
      intro i hi rk h hlen
      have hhead := h.keyHead (by omega) hlen (by omega)
      refine ⟨hhead.keyTail192 (by rw [length_keyHead]; omega), ?_⟩
      simp only [keyTail192, List.length_append, length_keyHead, List.length_cons, List.length_nil]
      omega
    obtain ⟨hexp, hlen⟩ := expands_foldl hstep
    exact ⟨rfl, length_keyHead.trans (by rw [hlen]), hexp.keyHead (by omega) hlen (by omega)⟩
  · have hstep : ∀ i < 6, ∀ rk, Expands 8 key rk → rk.length = 8 * (i + 1) →
        Expands 8 key (keyTail256 i (keyHead 8 i rk)) ∧ (keyTail256 i (keyHead 8 i rk)).length = 8 * (i + 2) := by
      intro i hi rk h hlen
      have hhead := h.keyHead (by omega) hlen (by omega)
      refine ⟨hhead.keyTail256 (by rw [length_keyHead]; omega), ?_⟩
      simp only [keyTail256, List.length_append, length_keyHead, length_chain4]
      omega
    obtain ⟨hexp, hlen⟩ := expands_foldl hstep
    exact ⟨rfl, length_keyHead.trans (by rw [hlen]), hexp.keyHead (by omega) hlen (by omega)⟩

section
variable {a b i j n nr : Nat} {rk : List UInt32}

/-! ## The order of the round keys -/

theorem length_swapWords : (swapWords i j rk).length = rk.length := by simp [swapWords]

theorem getD_swapWords (hi : i < rk.length) (hj : j < rk.length) (m : Nat) :
    (swapWords i j rk).getD m 0 = if m = j then rk.getD i 0 else if m = i then rk.getD j 0 else rk.getD m 0 := by
  simp only [swapWords, List.getD_eq_getElem?_getD, List.getElem?_set, List.length_set]
  by_cases hmj : m = j
  · simp [hmj, hj]
  · by_cases hmi : m = i
    · subst hmi
      simp [hi, hmj, Ne.symm hmj]
    · simp [hmj, hmi, Ne.symm hmj, Ne.symm hmi]

/-- The words of two blocks change places. -/
theorem swapBlocks_spec (hab : a + n ≤ b) (hb : b + n ≤ rk.length) :
    ((List.range n).foldl (fun rk c => swapWords (a + c) (b + c) rk) rk).length = rk.length ∧
      ∀ m, ((List.range n).foldl (fun rk c => swapWords (a + c) (b + c) rk) rk).getD m 0 =
        if a ≤ m ∧ m < a + n then rk.getD (m - a + b) 0
        else if b ≤ m ∧ m < b + n then rk.getD (m - b + a) 0 else rk.getD m 0 := by
  induction n with
  | zero =>
    refine ⟨rfl, fun m => ?_⟩
    rw [if_neg (by omega), if_neg (by omega)]
    rfl
  | succ n ih =>
    obtain ⟨hlen, hget⟩ := ih (by omega) (by omega)
    rw [List.range_succ, List.foldl_append, List.foldl_cons, List.foldl_nil]
    refine ⟨length_swapWords.trans hlen, fun m => ?_⟩
    rw [getD_swapWords (by omega) (by omega), hget, hget, hget]
    by_cases hmb : m = b + n
    · rw [if_pos hmb, if_neg (by omega), if_neg (by omega), if_neg (by omega), if_pos (by omega)]
      congr 1
      omega
    · by_cases hma : m = a + n
      · rw [if_neg hmb, if_pos hma, if_neg (by omega), if_neg (by omega), if_pos (by omega)]
        congr 1
        omega
      · have hina : (a ≤ m ∧ m < a + n) = (a ≤ m ∧ m < a + (n + 1)) := by
          apply propext
          omega
        have hinb : (b ≤ m ∧ m < b + n) = (b ≤ m ∧ m < b + (n + 1)) := by
          apply propext
          omega
        rw [if_neg hmb, if_neg hma]
        simp only [hina, hinb]

/-- After `n` rounds of the loop the first `n` and the last `n` round keys have changed places. -/
theorem swapKeys_foldl_spec (hlen : rk.length = 4 * (nr + 1)) (hn : 2 * n ≤ nr + 1) :
    ((List.range n).foldl (fun rk k => swapKeys nr k rk) rk).length = rk.length ∧
      ∀ i ≤ nr, ∀ c < 4, ((List.range n).foldl (fun rk k => swapKeys nr k rk) rk).getD (4 * i + c) 0 =
        if i < n ∨ nr < i + n then rk.getD (4 * (nr - i) + c) 0 else rk.getD (4 * i + c) 0 := by
  induction n with
  | zero =>
    refine ⟨rfl, fun i hi c _ => ?_⟩
    rw [if_neg (by omega)]
    rfl
  | succ n ih =>
    obtain ⟨hlenn, hget⟩ := ih (by omega)
    rw [List.range_succ, List.foldl_append, List.foldl_cons, List.foldl_nil]
    have hfirst : 4 * n + 4 ≤ 4 * (nr - n) := by omega
    have hsecond : 4 * (nr - n) + 4 ≤ ((List.range n).foldl (fun rk k => swapKeys nr k rk) rk).length := by omega
    have hswap := swapBlocks_spec hfirst hsecond
    refine ⟨hswap.1.trans hlenn, fun i hi c hc => ?_⟩
    rw [swapKeys, hswap.2]
    by_cases hin : i = n
    · have hplace : 4 * i + c - 4 * n + 4 * (nr - n) = 4 * (nr - i) + c := by omega
      rw [if_pos (by omega), if_pos (by omega), hplace, hget _ (by omega) c hc, if_neg (by omega)]
    · by_cases hlast : i = nr - n
      · have hplace : 4 * i + c - 4 * (nr - n) + 4 * n = 4 * (nr - i) + c := by omega
        rw [if_neg (by omega), if_pos (by omega), if_pos (by omega), hplace, hget _ (by omega) c hc,
          if_neg (by omega)]
      · have hcond : (i < n ∨ nr < i + n) = (i < n + 1 ∨ nr < i + (n + 1)) := by
          apply propext
          omega
        rw [if_neg (by omega), if_neg (by omega), hget i hi c hc]
        simp only [hcond]

theorem getD_invertOrder (hlen : rk.length = 4 * (nr + 1)) (hi : i ≤ nr) {c : Nat} (hc : c < 4) :
    (invertOrder nr rk).getD (4 * i + c) 0 = rk.getD (4 * (nr - i) + c) 0 := by
  rw [invertOrder, (swapKeys_foldl_spec hlen (by omega)).2 i hi c hc]
  by_cases hmid : i < (nr + 1) / 2 ∨ nr < i + (nr + 1) / 2
  · rw [if_pos hmid]
  · have hself : nr - i = i := by omega
    rw [if_neg hmid, hself]

theorem length_invertOrder (hlen : rk.length = 4 * (nr + 1)) : (invertOrder nr rk).length = rk.length :=
  (swapKeys_foldl_spec hlen (by omega)).1

/-! ## The schedule for decryption -/

/-- The lowest byte of an entry of `Te4` goes through the inverse of what it went through. -/
theorem byteOf_invMixWord (w : UInt32) (r : Fin 4) :
    byteOf (invMixWord w) r =
      mulByte (invMixCoef (0 - r)) (byteOf w 0) ^^^ mulByte (invMixCoef (1 - r)) (byteOf w 1) ^^^
        mulByte (invMixCoef (2 - r)) (byteOf w 2) ^^^ mulByte (invMixCoef (3 - r)) (byteOf w 3) := by
  have hlow : ∀ v : UInt32, entryMask Te4 v 0xff = entry Te4 v &&& 0xff := fun _ => rfl
  simp only [invMixWord, byteOf_xor, hlow, entry_24, entry_0, byteOf_shiftRight_16, byteOf_shiftRight_8,
    byteOf_Te4, byteOf_Td Td_tables.1, byteOf_Td Td_tables.2.1, byteOf_Td Td_tables.2.2.1,
    byteOf_Td Td_tables.2.2.2, sboxInv_sbox]

theorem keyState_invMixKeys (hi : i ≤ nr) (hlen : rk.length = 4 * (nr + 1)) :
    keyState (invMixKeys nr rk) (4 * i) =
      if 1 ≤ i ∧ i < nr then invMixColumns (keyState rk (4 * i)) else keyState rk (4 * i) := by
  funext c r
  have hlt : 4 * i + c.val < rk.length := by omega
  have hword : rk.getD (4 * i + c.val) 0 = rk[4 * i + c.val] := by simp [hlt]
  have hentry : (invMixKeys nr rk).getD (4 * i + c.val) 0 =
      if 4 ≤ 4 * i + c.val ∧ 4 * i + c.val < 4 * nr then invMixWord (rk.getD (4 * i + c.val) 0)
      else rk.getD (4 * i + c.val) 0 := by
    rw [hword, invMixKeys, List.getD_eq_getElem?_getD, List.getElem?_mapIdx, List.getElem?_eq_getElem hlt]
    rfl
  rw [keyState, hentry]
  by_cases hmid : 1 ≤ i ∧ i < nr
  · rw [if_pos hmid, if_pos (by omega), byteOf_invMixWord]
    rfl
  · rw [if_neg hmid, if_neg (by omega)]
    rfl

theorem keyState_invertOrder (hi : i ≤ nr) (hlen : rk.length = 4 * (nr + 1)) :
    keyState (invertOrder nr rk) (4 * i) = keyState rk (4 * (nr - i)) := by
  funext c r
  rw [keyState, keyState, getD_invertOrder hlen hi c.isLt]

/-- The round keys come in the other order, and all but the first and the last are mixed back. -/
theorem keyState_keySetupDec (hi : i ≤ nr) (hlen : rk.length = 4 * (nr + 1)) :
    keyState (invMixKeys nr (invertOrder nr rk)) (4 * i) =
      if 1 ≤ i ∧ i < nr then invMixColumns (keyState rk (4 * (nr - i))) else keyState rk (4 * (nr - i)) := by
  rw [keyState_invMixKeys hi ((length_invertOrder hlen).trans hlen), keyState_invertOrder hi hlen]

theorem middleKeys_reverse {w v : Nat → State} (hmid : ∀ i, 1 ≤ i → i < nr → v i = invMixColumns (w (nr - i))) :
    middleKeys nr v = aesSteps.inverseKeys (middleKeys nr w) := by
  apply List.ext_getElem
  · simp [middleKeys, RoundSteps.inverseKeys]
  · intro i hi _
    have hlt : i < nr - 1 := by simpa [middleKeys] using hi
    have hplace : nr - (i + 1) = nr - 1 - 1 - i + 1 := by omega
    simp only [middleKeys, RoundSteps.inverseKeys, List.getElem_map, List.getElem_range, List.getElem_reverse,
      List.length_map, List.length_range]
    rw [hmid (i + 1) (by omega) (by omega), hplace]
    rfl

/-- The inverse cipher undoes the cipher when its keys are such a schedule. -/
theorem aesInvCipher_aesCipher {w v : Nat → State} (hfirst : v 0 = w nr) (hlast : v nr = w 0)
    (hmid : ∀ i, 1 ≤ i → i < nr → v i = invMixColumns (w (nr - i))) (b : Block) :
    aesInvCipher nr v (aesCipher nr w b) = b := by
  rw [aesInvCipher, aesCipher, toState_ofState, middleKeys_reverse hmid, hfirst, hlast, RoundSteps.decrypt_encrypt,
    ofState_toState]

theorem aesCipher_congr {w v : Nat → State} (h : ∀ i ≤ nr, w i = v i) : aesCipher nr w = aesCipher nr v := by
  have hmid : middleKeys nr w = middleKeys nr v :=
    List.map_congr_left fun i hi => h (i + 1) (by have := List.mem_range.mp hi; omega)
  funext b
  rw [aesCipher, aesCipher, hmid, h 0 (by omega), h nr le_rfl]

end

section
variable {keyBits : Nat}

theorem keyState_keySetupEnc (key : Nat → UInt8) (hbits : keyBits = 128 ∨ keyBits = 192 ∨ keyBits = 256) {i : Nat}
    (hi : i ≤ keyBits / 32 + 6) :
    keyState (rijndaelKeySetupEnc key keyBits).1 (4 * i) = roundKey (keyBits / 32) key i := by
  obtain ⟨-, hlen, hexp⟩ := rijndaelKeySetupEnc_expands key hbits
  funext c r
  exact hexp (4 * i + c.val) (by omega) r

theorem rounds_even (hbits : keyBits = 128 ∨ keyBits = 192 ∨ keyBits = 256) :
    2 ≤ keyBits / 32 + 6 ∧ (keyBits / 32 + 6) % 2 = 0 := by
  rcases hbits with rfl | rfl | rfl <;> decide

end

/-- With the schedule of a key, encryption is the cipher with the round keys of the definition. -/
theorem rijndaelEncrypt_keySetupEnc (key : Nat → UInt8) {keyBits : Nat}
    (hbits : keyBits = 128 ∨ keyBits = 192 ∨ keyBits = 256) (pt : Block) :
    rijndaelEncrypt (rijndaelKeySetupEnc key keyBits).1 (rijndaelKeySetupEnc key keyBits).2 pt =
      aesCipher (keyBits / 32 + 6) (roundKey (keyBits / 32) key) pt := by
  obtain ⟨hnr, -, -⟩ := rijndaelKeySetupEnc_expands key hbits
  obtain ⟨h2, heven⟩ := rounds_even hbits
  rw [hnr, rijndaelEncrypt_eq_aesCipher _ h2 heven]
  exact congrFun (aesCipher_congr fun i hi => keyState_keySetupEnc key hbits hi) pt

/-- A key of 128 bits, and a block of zeros. -/
theorem rijndaelEncrypt_keySetupEnc_128 :
    rijndaelEncrypt (rijndaelKeySetupEnc UInt8.ofNat 128).1 (rijndaelKeySetupEnc UInt8.ofNat 128).2 (fun _ => 0) =
      aesCipher (128 / 32 + 6) (roundKey (128 / 32) UInt8.ofNat) fun _ => 0 :=
  rijndaelEncrypt_keySetupEnc UInt8.ofNat (.inl rfl) fun _ => 0

/-- Decryption with the schedule of a key undoes encryption with it. -/
theorem rijndaelDecrypt_rijndaelEncrypt (key : Nat → UInt8) {keyBits : Nat}
    (hbits : keyBits = 128 ∨ keyBits = 192 ∨ keyBits = 256) (pt : Block) :
    rijndaelDecrypt (rijndaelKeySetupDec key keyBits).1 (rijndaelKeySetupDec key keyBits).2
      (rijndaelEncrypt (rijndaelKeySetupEnc key keyBits).1 (rijndaelKeySetupEnc key keyBits).2 pt) = pt := by
  obtain ⟨hnr, hlen, -⟩ := rijndaelKeySetupEnc_expands key hbits
  obtain ⟨h2, heven⟩ := rounds_even hbits
  rw [rijndaelKeySetupDec, hnr, rijndaelDecrypt_eq_aesInvCipher _ h2 heven, rijndaelEncrypt_eq_aesCipher _ h2 heven]
  apply aesInvCipher_aesCipher
  · rw [keyState_keySetupDec (by omega) hlen, if_neg (by omega), Nat.sub_zero]
  · rw [keyState_keySetupDec le_rfl hlen, if_neg (by omega), Nat.sub_self]
  · intro i h1 hlt
    rw [keyState_keySetupDec (by omega) hlen, if_pos ⟨h1, hlt⟩]

theorem rijndaelDecrypt_rijndaelEncrypt_256 :
    rijndaelDecrypt (rijndaelKeySetupDec UInt8.ofNat 256).1 (rijndaelKeySetupDec UInt8.ofNat 256).2
      (rijndaelEncrypt (rijndaelKeySetupEnc UInt8.ofNat 256).1 (rijndaelKeySetupEnc UInt8.ofNat 256).2 fun _ => 0) =
        fun _ => 0 :=
  rijndaelDecrypt_rijndaelEncrypt UInt8.ofNat (.inr (.inr rfl)) fun _ => 0

end Xmap.Cipher
