import Xmap.Target.Lemmas.Cover
import Xmap.Target.Lemmas.Groups

/-!
# The ranges of a cycle

The shards of one cycle walk one after another: each ends where the next one starts. With a generator
and without overflow they meet every residue once.
-/

namespace Xmap.Target

open Xmap.Lib

namespace XmCycle

variable (c : XmCycle)

abbrev prime : Nat := c.group.val.prime

def step (x : Nat) : Nat := x * c.generator % 2 ^ 64 % c.prime

/-- The first element of range `i` of `n`. -/
def start (n i : Nat) : Nat := c.generator ^ exponentAt c n i % c.prime

/-- The product of a residue and the generator fits a word. -/
def Fits : Prop := (c.prime - 1) * c.generator < 2 ^ 64

/-- The number of elements of range `i` of `n`: the last range takes the remainder. -/
def rangeLength (n i : Nat) : Nat :=
  if i + 1 < n then c.order / n else c.order - c.order / n * i

theorem isPrime : c.prime.Prime := (groups_sound c.group).prime

instance : Fact c.prime.Prime := ⟨c.isPrime⟩

theorem start_lt (n i : Nat) : c.start n i < c.prime := Nat.mod_lt _ c.isPrime.pos

theorem step_lt (x : Nat) : c.step x < c.prime := Nat.mod_lt _ c.isPrime.pos

variable {c}

theorem step_eq (hf : c.Fits) {x : Nat} (hx : x < c.prime) :
    c.step x = mulMod c.generator c.prime x := by
  have hle : x * c.generator ≤ (c.prime - 1) * c.generator :=
    Nat.mul_le_mul_right _ (by omega)
  unfold Fits at hf
  rw [step, mulMod, Nat.mod_eq_of_lt (show x * c.generator < 2 ^ 64 by omega)]

theorem iterate_step_lt {x : Nat} (hx : x < c.prime) (n : Nat) : c.step^[n] x < c.prime := by
  cases n with
  | zero => exact hx
  | succ n =>
    rw [Function.iterate_succ_apply']
    exact c.step_lt _

theorem iterate_step_eq (hf : c.Fits) {x : Nat} (hx : x < c.prime) (n : Nat) :
    c.step^[n] x = (mulMod c.generator c.prime)^[n] x := by
  induction n with
  | zero => rfl
  | succ n ih =>
    rw [Function.iterate_succ_apply', Function.iterate_succ_apply', ← ih,
      step_eq hf (iterate_step_lt hx n)]

theorem walk_step_eq (hf : c.Fits) {x : Nat} (hx : x < c.prime) (n : Nat) :
    walk c.step x n = walk (mulMod c.generator c.prime) x n :=
  List.map_congr_left fun j _ => iterate_step_eq hf hx j

theorem fits_of_prime_lt (hp : c.prime < 2 ^ 32) : c.Fits := by
  have hg := c.generator_lt
  have := c.isPrime.one_lt
  have : (c.prime - 1) * c.generator ≤ 2 ^ 32 * c.generator := Nat.mul_le_mul_right _ (by omega)
  unfold Fits
  omega

end XmCycle

section
variable {c : XmCycle} {n i : Nat}

theorem shardParams_step : (shardParams c n i).step = c.step := rfl

theorem shardParams_first : (shardParams c n i).first = c.start n i := rfl

theorem shardParams_last : (shardParams c n i).last = c.start n ((i + 1) % n) := rfl

theorem exponentAt_lt (n i : Nat) : exponentAt c n i < c.order := by
  have horder : c.order = c.prime - 1 := c.order_eq
  have := c.isPrime.two_le
  exact Nat.mod_lt _ (by omega)

theorem exponentAt_add_rangeLength (hn : n ≤ c.order) (hi : i < n) :
    (exponentAt c n i + c.rangeLength n i) % c.order =
      exponentAt c n ((i + 1) % n) % c.order := by
  simp only [exponentAt, XmCycle.rangeLength, Nat.mod_mod, Nat.mod_add_mod]
  by_cases hlast : i + 1 < n
  · rw [if_pos hlast, Nat.mod_eq_of_lt hlast]
    congr 1
    ring
  · obtain rfl : n = i + 1 := by omega
    have hle : c.order / (i + 1) * i ≤ c.order :=
      (Nat.mul_le_mul_left _ (Nat.le_succ i)).trans (Nat.div_mul_le_self _ _)
    rw [if_neg hlast, Nat.mod_self, Nat.mul_zero, Nat.zero_add,
      show c.order / (i + 1) * i + c.offset + (c.order - c.order / (i + 1) * i) =
        c.offset + c.order by omega, Nat.add_mod_right]

theorem rangeLength_pos (hn : n ≤ c.order) (hi : i < n) : 0 < c.rangeLength n i := by
  have hf : 0 < c.order / n := Nat.div_pos hn (by omega)
  unfold XmCycle.rangeLength
  split
  · exact hf
  · obtain rfl : n = i + 1 := by omega
    have := Nat.div_mul_le_self c.order (i + 1)
    rw [Nat.mul_succ] at this
    omega

theorem rangeLength_le : c.rangeLength n i ≤ c.order := by
  unfold XmCycle.rangeLength
  split
  · exact Nat.div_le_self _ _
  · exact Nat.sub_le _ _

theorem sum_rangeLength (hn : 0 < n) :
    ((List.range n).map (c.rangeLength n)).sum = c.order := by
  obtain ⟨k, rfl⟩ : ∃ k, n = k + 1 := ⟨n - 1, by omega⟩
  have hinit : ((List.range k).map (c.rangeLength (k + 1))).sum = c.order / (k + 1) * k := by
    have hconst : (List.range k).map (c.rangeLength (k + 1)) =
        (List.range k).map fun _ => c.order / (k + 1) :=
      List.map_congr_left fun i hi => if_pos (by have := List.mem_range.mp hi; omega)
    rw [hconst, List.map_const', List.sum_replicate, List.length_range, smul_eq_mul, mul_comm]
  have hle : c.order / (k + 1) * k ≤ c.order :=
    (Nat.mul_le_mul_left _ (Nat.le_succ k)).trans (Nat.div_mul_le_self _ _)
  rw [List.range_succ, List.map_append, List.sum_append, hinit]
  simp only [List.map_cons, List.map_nil, List.sum_cons, List.sum_nil, XmCycle.rangeLength]
  rw [if_neg (by omega)]
  omega

theorem closes_range (hg : IsGenerator c.generator c.prime) (hf : c.Fits) (hn : n ≤ c.order)
    (hi : i < n) (hlast : (shardParams c n i).last < 2 ^ 32) :
    (shardParams c n i).Closes (c.rangeLength n i) := by
  have horder := c.order_eq
  have hit := hg.firstHit (rangeLength_pos hn hi) (horder ▸ rangeLength_le)
    (horder ▸ exponentAt_add_rangeLength hn hi)
  refine ⟨hit.pos, ?_, fun j hj hjm hl => hit.first j hj hjm ?_⟩
  · rw [shardParams_step, shardParams_first, XmCycle.iterate_step_eq hf (c.start_lt n i)]
    exact ⟨hit.hit ▸ hlast, hit.hit⟩
  · rw [shardParams_step, shardParams_first, XmCycle.iterate_step_eq hf (c.start_lt n i)] at hl
    exact hl.2

/-- Closing walks of all ranges make one walk from the first element back to it. -/
theorem ranges_chain {ms : Nat → Nat} (hclose : ∀ i < n, (shardParams c n i).Closes (ms i)) :
    c.step^[((List.range n).map ms).sum] (c.start n 0) = c.start n 0 ∧
      (List.range n).flatMap (fun i => walk c.step (c.start n i) (ms i)) =
        walk c.step (c.start n 0) ((List.range n).map ms).sum := by
  cases n with
  | zero => simp
  | succ k =>
    have hxs : ∀ i < k + 1, c.step^[ms i] (c.start (k + 1) (i % (k + 1))) =
        c.start (k + 1) ((i + 1) % (k + 1)) := by
      intro i hi
      rw [Nat.mod_eq_of_lt hi]
      exact (hclose i hi).hit.2
    obtain ⟨hend, hflat⟩ := walk_chain (fun i => c.start (k + 1) (i % (k + 1))) hxs
    simp only [Nat.zero_mod, Nat.mod_self] at hend hflat
    refine ⟨hend, ?_⟩
    rw [← hflat]
    refine List.flatMap_congr fun i hi => ?_
    rw [Nat.mod_eq_of_lt (List.mem_range.mp hi)]

end

end Xmap.Target
