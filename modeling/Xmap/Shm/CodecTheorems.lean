import Xmap.Shm.Codec
import Xmap.Shm.Lemmas.Encoding

/-!
# Typed values come back as they were written

Modulo the width of its type a value is the number that its bytes stand for, and a sequence of values is
the sequence of their bytes.
-/

namespace Xmap.Shm.Codec

open Xmap.Lib

/-! ## Conversions -/

namespace IntType

variable {t : IntType} {v v' : Int}

theorem convert_modEq (t : IntType) (v : Int) : t.convert v ≡ v [ZMOD 2 ^ (8 * t.sizeof)] := by
  rw [convert]
  split
  · have h := Int.bmod_emod (x := v) (m := 2 ^ (8 * t.sizeof))
    rwa [Nat.cast_pow] at h
  · exact Int.mod_modEq v _

theorem convert_congr (h : v ≡ v' [ZMOD 2 ^ (8 * t.sizeof)]) : t.convert v = t.convert v' := by
  have hcast : ((2 ^ (8 * t.sizeof) : Nat) : Int) = 2 ^ (8 * t.sizeof) := Nat.cast_pow 2 _
  rw [Int.ModEq] at h
  rw [convert, convert, h, ← Int.emod_bmod v, ← Int.emod_bmod v', hcast, h]

theorem convert_of_inRange (h : t.InRange v) : t.convert v = v := by
  cases t <;>
    simp only [InRange, signed, sizeof, if_true, if_false, Bool.false_eq_true] at h <;>
    simp only [convert, signed, sizeof, if_true, if_false, Bool.false_eq_true] <;>
    first
    | exact Int.emod_eq_of_lt h.1 h.2
    | (rw [Int.bmod_eq_of_le] <;> norm_num at h ⊢ <;> omega)

/-- A type is not wider than the one it is promoted to. -/
theorem promote_convert_modEq (t : IntType) (v : Int) :
    t.promote.convert v ≡ v [ZMOD 2 ^ (8 * t.sizeof)] := by
  have hle : t.sizeof ≤ t.promote.sizeof := by cases t <;> decide
  exact (convert_modEq t.promote v).of_dvd (pow_dvd_pow 2 (by omega))

end IntType

/-! ## The bytes of a value -/

@[simp] theorem length_doValueWrite (v : Int) (n : Nat) : (doValueWrite v n).length = n := by
  induction n with
  | zero => rfl
  | succ n ih => rw [doValueWrite, List.length_cons, ih]

theorem emod_two_pow_add (v : Int) (a b : Nat) :
    v % 2 ^ (a + b) = v / 2 ^ a % 2 ^ b * 2 ^ a + v % 2 ^ a := by
  have hpos : (0 : Int) < 2 ^ a := by positivity
  have hlow := Int.emod_add_mul_ediv v (2 ^ a)
  have hhigh := Int.emod_add_mul_ediv (v / 2 ^ a) (2 ^ b)
  have hbyte : v / 2 ^ a % 2 ^ b + 1 ≤ 2 ^ b := Int.emod_lt_of_pos _ (by positivity)
  have hbyte₀ : 0 ≤ v / 2 ^ a % 2 ^ b := Int.emod_nonneg _ (by positivity)
  have hrest : v % 2 ^ a < 2 ^ a := Int.emod_lt_of_pos _ hpos
  have hrest₀ : 0 ≤ v % 2 ^ a := Int.emod_nonneg _ hpos.ne'
  refine ((Int.ediv_emod_unique (q := v / 2 ^ a / 2 ^ b) (by positivity)).mpr ⟨?_, ?_, ?_⟩).2
  · rw [pow_add]
    linear_combination hlow + 2 ^ a * hhigh
  · positivity
  · rw [pow_add]
    nlinarith

theorem ofBE_doValueWrite (v : Int) (n : Nat) : (ofBE (doValueWrite v n) : Int) = v % 2 ^ (8 * n) := by
  induction n with
  | zero => simp [doValueWrite, ofBE]
  | succ n ih =>
    have hbyte : (((v >>> (8 * n) % 256).toNat % 2 ^ 8 : Nat) : Int) = v / 2 ^ (8 * n) % 2 ^ 8 := by
      rw [Int.shiftRight_eq_div_pow, Nat.cast_pow]
      norm_num
      omega
    rw [doValueWrite, ofBE, length_doValueWrite, Nat.shiftLeft_eq, UInt8.toNat_ofNat', Nat.cast_add,
      Nat.cast_mul, ih, hbyte, Nat.cast_pow, Nat.mul_succ, emod_two_pow_add]
    rfl

theorem doValueRead_eq (t : IntType) (bs : List UInt8) (v : Int) :
    doValueRead t bs (t.convert v) = t.convert (v + ofBE bs) := by
  induction bs generalizing v with
  | nil => rw [doValueRead, ofBE, Nat.cast_zero, Int.add_zero]
  | cons b bs ih =>
    have hbyte : t.convert b.toNat <<< (8 * bs.length) ≡ (b.toNat : Int) * 2 ^ (8 * bs.length)
        [ZMOD 2 ^ (8 * t.sizeof)] := by
      rw [Int.shiftLeft_eq]
      exact (t.convert_modEq _).mul_right _
    have hsum := (t.convert_modEq v).add ((t.promote_convert_modEq _).trans hbyte)
    rw [doValueRead, ih, ofBE, Nat.shiftLeft_eq, Nat.cast_add, Nat.cast_mul, Nat.cast_pow,
      ← Int.add_assoc]
    exact IntType.convert_congr (((t.promote_convert_modEq _).trans hsum).add_right _)

theorem doValueRead_doValueWrite {t : IntType} {v : Int} (hv : t.InRange v) :
    doValueRead t (doValueWrite v t.sizeof) 0 = v := by
  have hzero : t.convert 0 = 0 := by cases t <;> rfl
  have hread := doValueRead_eq t (doValueWrite v t.sizeof) 0
  rw [hzero, Int.zero_add, ofBE_doValueWrite] at hread
  rw [hread, IntType.convert_congr (Int.mod_modEq v _), IntType.convert_of_inRange hv]

/-! ## The writes and reads of unsigned values

The bytes do not depend on how they are computed, so these are the operations of `BinFormat`.
-/

theorem doValueWrite_natCast (v n : Nat) : doValueWrite v n = toBE n v := by
  have hval : ofBE (doValueWrite v n) = v % 2 ^ (8 * n) := by
    have h := ofBE_doValueWrite v n
    exact_mod_cast h
  have hbytes := toBE_ofBE (doValueWrite v n)
  rw [length_doValueWrite, hval] at hbytes
  rw [← hbytes, ← toBE_add_mul n (v % 2 ^ (8 * n)) (v / 2 ^ (8 * n)), Nat.mod_add_div]

theorem valueWrite_eq_xmBfValueWrite (t : IntType) (w : Mem × XmBinFormat) (v : Nat) :
    (valueWrite t w v).1 = xmBfValueWrite t.sizeof w v := by
  rw [valueWrite, xmBfValueWrite, doValueWrite_natCast]
  split <;> rfl

theorem valueRead_eq_xmBfValueRead {t : IntType} (ht : t.signed = false) (m : Mem) (bf : XmBinFormat) :
    valueRead t m bf = (((xmBfValueRead t.sizeof m bf).1 : Int), (xmBfValueRead t.sizeof m bf).2) := by
  have hzero : t.convert 0 = 0 := by cases t <;> rfl
  have hread := doValueRead_eq t (m.read bf.pos t.sizeof) 0
  have hlt := ofBE_lt (m.read bf.pos t.sizeof)
  rw [Mem.length_read] at hlt
  rw [hzero, Int.zero_add, IntType.convert_of_inRange] at hread
  · rw [valueRead, xmBfValueRead, hread]
    split <;> rfl
  · rw [IntType.InRange, ht, if_neg Bool.false_ne_true]
    exact ⟨Int.natCast_nonneg _, by exact_mod_cast hlt⟩

/-! ## One value -/

def TypedValue.encode : TypedValue → List UInt8
  | int t v _ => doValueWrite v t.sizeof
  | bytes bs _ => doValueWrite bs.length 8 ++ bs

section
variable {t : IntType} {v : Int} {w : Mem × XmBinFormat} {m : Mem} {bf : XmBinFormat} {bs : List UInt8}

theorem intWrite_eq (t : IntType) : intWrite t = valueWrite t := by cases t <;> rfl

theorem intRead_eq (t : IntType) : intRead t = valueRead t := by cases t <;> rfl

theorem TypedValue.length_encode_lt (x : TypedValue) : x.encode.length < 2 ^ 63 + 8 := by
  cases x with
  | int t v hv => cases t <;> simp [encode, IntType.sizeof]
  | bytes bs hb =>
    rw [encode, List.length_append, length_doValueWrite]
    omega

theorem xmBfBytesWrite_eq (hb : bs.length < 2 ^ 63) (h : w.2.pos + (bs.length + 8) ≤ w.2.finish) :
    xmBfBytesWrite w bs = (doWrite w (doValueWrite bs.length 8 ++ bs),
      IntType.int64.convert (bs.length + 8 : Nat)) := by
  have hlen : (bs.length + 8) % 2 ^ 64 = bs.length + 8 := Nat.mod_eq_of_lt (by omega)
  have hsize : xmBfSizeWrite w bs.length = (doWrite w (doValueWrite bs.length 8), 8) :=
    if_neg (show ¬ w.2.finish < w.2.pos + 8 by omega)
  rw [xmBfBytesWrite, hlen, if_neg (show ¬ w.2.finish < w.2.pos + (bs.length + 8) by omega), hsize,
    doWrite_doWrite]

/-- A write fails and changes nothing, or leaves the bytes of the value and returns their number. -/
theorem writeOne_cases (w : Mem × XmBinFormat) (x : TypedValue) :
    writeOne w x = (w, -1) ∨
      w.2.pos + x.encode.length ≤ w.2.finish ∧
        writeOne w x = (doWrite w x.encode, IntType.int64.convert x.encode.length) := by
  cases x with
  | int t v hv =>
    have hcount : IntType.int64.convert t.sizeof = t.sizeof := by cases t <;> rfl
    rw [writeOne, intWrite_eq, valueWrite, TypedValue.encode, length_doValueWrite, hcount]
    split
    · exact .inl rfl
    · rename_i hfit
      exact .inr ⟨Nat.le_of_not_lt hfit, rfl⟩
  | bytes bs hb =>
    by_cases hfit : w.2.pos + (bs.length + 8) ≤ w.2.finish
    · have hlen : (TypedValue.bytes bs hb).encode.length = bs.length + 8 := by
        rw [TypedValue.encode, List.length_append, length_doValueWrite, Nat.add_comm]
      exact .inr ⟨hlen ▸ hfit, by rw [writeOne, xmBfBytesWrite_eq hb hfit, hlen]; rfl⟩
    · have hlen : (bs.length + 8) % 2 ^ 64 = bs.length + 8 := Nat.mod_eq_of_lt (by omega)
      refine .inl ?_
      rw [writeOne, xmBfBytesWrite, hlen]
      exact if_pos (Nat.lt_of_not_le hfit)

theorem int64_convert_of_nonneg {n : Nat} (hn : n < 2 ^ 63 + 8) (h : 0 ≤ IntType.int64.convert n) :
    IntType.int64.convert n = n := by
  have hlt : n < 2 ^ 63 := by
    by_contra hge
    have hneg : IntType.int64.convert n = n - 2 ^ 64 := by
      simp only [IntType.convert, IntType.signed, IntType.sizeof, if_true, Int.bmod]
      omega
    omega
  refine IntType.convert_of_inRange ?_
  simp only [IntType.InRange, IntType.signed, IntType.sizeof, if_true]
  omega

theorem int64_convert_ne_neg_one {n : Nat} (hn : n < 2 ^ 63 + 8) : IntType.int64.convert n ≠ -1 := by
  simp only [IntType.convert, IntType.signed, IntType.sizeof, if_true, Int.bmod]
  omega

theorem valueRead_of_holds (hv : t.InRange v) (hm : m.Holds bf.pos (doValueWrite v t.sizeof))
    (h : bf.pos + t.sizeof ≤ bf.finish) : valueRead t m bf = (v, xmBfPosUpdate bf t.sizeof) := by
  rw [Mem.Holds, length_doValueWrite] at hm
  rw [valueRead, if_neg (Nat.not_lt_of_le h), hm, doValueRead_doValueWrite hv]

theorem readOne_of_holds {x : TypedValue} (hm : m.Holds bf.pos x.encode)
    (h : bf.pos + x.encode.length ≤ bf.finish) :
    readOne m bf x.type = (x.value, xmBfPosUpdate bf x.encode.length) := by
  cases x with
  | int t v hv =>
    rw [TypedValue.encode, length_doValueWrite] at h
    rw [TypedValue.type, TypedValue.value, TypedValue.encode, length_doValueWrite, readOne, intRead_eq,
      valueRead_of_holds hv hm h]
  | bytes bs hb =>
    obtain ⟨hsize, hdata⟩ := Mem.holds_append.mp hm
    rw [TypedValue.encode, List.length_append, length_doValueWrite] at h
    rw [length_doValueWrite] at hdata
    have hlen : IntType.size.InRange bs.length := by
      simp only [IntType.InRange, IntType.signed, IntType.sizeof, if_false, Bool.false_eq_true]
      omega
    have hread : xmBfSizeRead m bf = ((bs.length : Int), xmBfPosUpdate bf 8) :=
      valueRead_of_holds hlen hsize (by simp only [IntType.sizeof]; omega)
    have hfit : ¬ xmBfFull bf 8 := by
      show ¬ bf.finish < bf.pos + 8
      omega
    rw [TypedValue.type, TypedValue.value, TypedValue.encode, List.length_append, length_doValueWrite,
      readOne, xmBfBytesRead, if_neg hfit, hread]
    simp only [xmBfPosUpdate, Int.toNat_natCast, Nat.add_assoc]
    rw [Mem.Holds] at hdata
    rw [hdata]

end

/-! ## A sequence of values -/

theorem writeOne_of_nonneg {w : Mem × XmBinFormat} {x : TypedValue} (h : 0 ≤ (writeOne w x).2) :
    w.2.pos + x.encode.length ≤ w.2.finish ∧
      writeOne w x = (doWrite w x.encode, (x.encode.length : Int)) := by
  obtain hfail | ⟨hfit, hone⟩ := writeOne_cases w x
  · simp [hfail] at h
  · simp only [hone] at h
    rw [hone, int64_convert_of_nonneg x.length_encode_lt h]
    exact ⟨hfit, rfl⟩

theorem writeOne_of_neg_one {w : Mem × XmBinFormat} {x : TypedValue} (h : (writeOne w x).2 = -1) :
    (writeOne w x).1 = w := by
  obtain hfail | ⟨-, hone⟩ := writeOne_cases w x
  · rw [hfail]
  · simp only [hone] at h
    exact absurd h (int64_convert_ne_neg_one x.length_encode_lt)

theorem doWrite_nil (w : Mem × XmBinFormat) : doWrite w [] = w := by
  refine Prod.ext (funext fun i => ?_) rfl
  exact Mem.write_apply_of_disjoint (Nat.lt_or_ge i w.2.pos)

/-- Writes that all succeed leave the bytes of their values one after the other. -/
theorem writeAll_of_nonneg {w : Mem × XmBinFormat} {xs : List TypedValue}
    (h : ∀ c ∈ (writeAll w xs).2, 0 ≤ c) :
    (writeAll w xs).1 = doWrite w (xs.flatMap TypedValue.encode) ∧
      (writeAll w xs).2.sum = ((xs.flatMap TypedValue.encode).length : Int) := by
  induction xs generalizing w with
  | nil => exact ⟨(doWrite_nil w).symm, rfl⟩
  | cons x xs ih =>
    simp only [writeAll, List.forall_mem_cons] at h
    obtain ⟨-, hone⟩ := writeOne_of_nonneg h.1
    obtain ⟨hrest, hsum⟩ := ih h.2
    simp only [writeAll, hone] at hrest hsum ⊢
    rw [hrest, List.sum_cons, hsum, List.flatMap_cons, doWrite_doWrite, List.length_append, Nat.cast_add]
    exact ⟨rfl, rfl⟩

theorem readAll_of_holds {w : Mem × XmBinFormat} {xs : List TypedValue} {m : Mem}
    (h : ∀ c ∈ (writeAll w xs).2, 0 ≤ c) (hm : m.Holds w.2.pos (xs.flatMap TypedValue.encode)) :
    readAll m w.2 (xs.map TypedValue.type) = (xs.map TypedValue.value, (writeAll w xs).1.2) := by
  induction xs generalizing w with
  | nil => rfl
  | cons x xs ih =>
    simp only [writeAll, List.forall_mem_cons] at h
    obtain ⟨hfit, hone⟩ := writeOne_of_nonneg h.1
    obtain ⟨hhead, hrest⟩ := Mem.holds_append.mp hm
    rw [hone] at h
    have hstep : readAll m (xmBfPosUpdate w.2 x.encode.length) (xs.map TypedValue.type) =
        (xs.map TypedValue.value, (writeAll (doWrite w x.encode) xs).1.2) := ih h.2 hrest
    simp only [List.map_cons, readAll, readOne_of_holds hhead hfit, writeAll, hone, hstep]

/-- Where every write succeeds, the counts sum up to the advance, and what is read from the start is what
was written there. -/
theorem writeAll_readAll (w : Mem × XmBinFormat) (xs : List TypedValue) (x : TypedValue) :
    ((∀ c ∈ (writeAll w xs).2, 0 ≤ c) →
      (writeAll w xs).2.sum = (writeAll w xs).1.2.pos - w.2.pos ∧
      (w.2.pos = w.2.start →
        readAll (writeAll w xs).1.1 (xmBfReset (writeAll w xs).1.2) (xs.map TypedValue.type) =
          (xs.map TypedValue.value, (writeAll w xs).1.2))) ∧
    ((writeOne w x).2 = -1 → (writeOne w x).1 = w) := by
  refine ⟨fun hcounts => ?_, writeOne_of_neg_one⟩
  obtain ⟨hall, hsum⟩ := writeAll_of_nonneg hcounts
  refine ⟨?_, fun hstart => ?_⟩
  · rw [hsum, hall]
    simp only [doWrite, xmBfPosUpdate]
    omega
  · have hreset : xmBfReset (writeAll w xs).1.2 = w.2 := by
      rw [hall]
      exact congrArg (XmBinFormat.mk w.2.start · w.2.finish) hstart.symm
    rw [hreset]
    exact readAll_of_holds hcounts (by rw [hall]; exact Mem.holds_write_self)

theorem writeAll_readAll_int16_bytes :
    let w : Mem × XmBinFormat := (fun _ => 0, xmBfInit 0 12)
    let xs : List TypedValue := [.int .int16 (-2) (by simp [IntType.InRange, IntType.signed, IntType.sizeof]),
      .bytes [7] (by simp)]
    (writeAll w xs).2.sum = (writeAll w xs).1.2.pos - w.2.pos ∧
      readAll (writeAll w xs).1.1 (xmBfReset (writeAll w xs).1.2) (xs.map TypedValue.type) =
        (xs.map TypedValue.value, (writeAll w xs).1.2) ∧
      (writeOne w (.bytes [1, 2, 3, 4, 5] (by simp))).1 = w := by
  intro w xs
  obtain ⟨hall, hone⟩ := writeAll_readAll w xs (.bytes [1, 2, 3, 4, 5] (by simp))
  obtain ⟨hsum, hread⟩ := hall (by decide +kernel)
  exact ⟨hsum, hread rfl, hone (by decide +kernel)⟩

end Xmap.Shm.Codec
