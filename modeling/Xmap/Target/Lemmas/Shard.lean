import Xmap.Lib.Walk
import Xmap.Target.Shard

/-!
# The walk of a shard

A call of `xm_shard_get_next_ip` is a walk to the first element that is the last one or has a valid
index; the addresses that a shard emits are those of the valid elements of its whole walk. A shard
without any emits the address of the index before the first one.
-/

namespace Xmap.Target

open Xmap.Lib

def ShardParams.step (p : ShardParams) (x : Nat) : Nat := x * p.factor % 2 ^ 64 % p.modulus

def ShardParams.IsLast (p : ShardParams) (y : Nat) : Prop := y < 2 ^ 32 ∧ y = p.last

/-- The element before it is an index below `maxIndex`. -/
def IsValid (maxIndex y : Nat) : Prop := 0 < y ∧ y ≤ maxIndex

instance (p : ShardParams) : DecidablePred p.IsLast :=
  fun _ => inferInstanceAs (Decidable (_ ∧ _))

instance (maxIndex : Nat) : DecidablePred (IsValid maxIndex) :=
  fun _ => inferInstanceAs (Decidable (_ ∧ _))

/-- The list is painted, so a lookup by index leaves it as it is. -/
def Settled (wblist : XmWblist) : Prop := ∀ i, (xmWblistLookupIndex wblist i).1 = wblist

def addrAt (wblist : XmWblist) (index : Nat) : Nat := (xmWblistLookupIndex wblist index).2

/-- The address of the index before the first one. -/
def stray (wblist : XmWblist) : Nat := addrAt wblist (2 ^ 64 - 1)

theorem lookupIndex_eq {s : XmShard} (hw : Settled s.wblist) (i : Nat) :
    s.lookupIndex i = (s, addrAt s.wblist i) := by
  simp only [XmShard.lookupIndex, hw i]
  rfl

theorem lookupIndex_countWhitelisted {s : XmShard} (hw : Settled s.wblist) (y i : Nat) :
    ({ s with current := y } : XmShard).countWhitelisted.lookupIndex i =
      (({ s with current := y } : XmShard).countWhitelisted, addrAt s.wblist i) :=
  lookupIndex_eq (s := ({ s with current := y } : XmShard).countWhitelisted) hw i

/-! ## One step -/

theorem shardGetNextElem_sound {fuel : Nat} {s : XmShard} {r : XmShard × Nat}
    (h : shardGetNextElem fuel s = some r) :
    ∃ k, FirstHit s.params.step (· < 2 ^ 32) s.current k ∧
      r = ({ s with current := s.params.step^[k] s.current }, s.params.step^[k] s.current) := by
  induction fuel generalizing s with
  | zero => simp [shardGetNextElem] at h
  | succ fuel ih =>
    rw [shardGetNextElem] at h
    by_cases hc : 2 ^ 32 ≤ s.mulFactor.current
    · rw [if_pos hc] at h
      obtain ⟨k, hk, rfl⟩ := ih h
      have hc : ¬ s.params.step s.current < 2 ^ 32 := Nat.not_lt.mpr hc
      exact ⟨k + 1, (FirstHit.succ_iff (P := (· < 2 ^ 32)) hc).mpr hk, rfl⟩
    · rw [if_neg hc] at h
      cases h
      exact ⟨1, FirstHit.one (Nat.not_le.mp hc), rfl⟩

theorem shardGetNextElem_complete {fuel k : Nat} {s : XmShard}
    (h : FirstHit s.params.step (· < 2 ^ 32) s.current k) (hf : k ≤ fuel) :
    shardGetNextElem fuel s =
      some ({ s with current := s.params.step^[k] s.current }, s.params.step^[k] s.current) := by
  induction fuel generalizing s k with
  | zero => exact absurd h.pos (by omega)
  | succ fuel ih =>
    obtain ⟨k, rfl⟩ : ∃ i, k = i + 1 := ⟨k - 1, by have := h.pos; omega⟩
    rw [shardGetNextElem]
    by_cases hc : 2 ^ 32 ≤ s.mulFactor.current
    · rw [if_pos hc]
      have hc : ¬ s.params.step s.current < 2 ^ 32 := Nat.not_lt.mpr hc
      exact ih (s := s.mulFactor) ((FirstHit.succ_iff (P := (· < 2 ^ 32)) hc).mp h) (by omega)
    · rw [if_neg hc]
      obtain rfl : k = 0 := by
        have := h.unique (FirstHit.one (Nat.not_le.mp hc))
        omega
      rfl

/-! ## One address -/

/-- Where a walk of `xm_shard_get_next_ip` stops. -/
def Stop (p : ShardParams) (maxIndex y : Nat) : Prop := p.IsLast y ∨ IsValid maxIndex y

/-- The shard and the address after a walk to `y`. -/
def land (s : XmShard) (st : ShardState) (y : Nat) : XmShard × Nat :=
  if y = s.params.last then ({ s with state := st, current := xmShardDone }, xmShardDone)
  else ({ s with state := st, current := y }, addrAt s.wblist (y - 1))

theorem candidateIndex_lt {maxIndex y : Nat} (hM : maxIndex < 2 ^ 32) (hy : y < 2 ^ 32) :
    (y + 2 ^ 32 - 1) % 2 ^ 32 < maxIndex ↔ IsValid maxIndex y := by
  unfold IsValid
  omega

theorem candidateIndex_eq {maxIndex y : Nat} (hM : maxIndex < 2 ^ 32) (h : IsValid maxIndex y) :
    (y + 2 ^ 32 - 1) % 2 ^ 32 = y - 1 := by
  unfold IsValid at h
  omega

theorem currentIndex_lt {s : XmShard} (hM : s.maxIndex < 2 ^ 32) (hc : s.current < 2 ^ 64) :
    currentIndex s < s.maxIndex ↔ IsValid s.maxIndex s.current := by
  unfold currentIndex IsValid
  omega

theorem currentIndex_of_valid {s : XmShard} (hM : s.maxIndex < 2 ^ 32)
    (h : IsValid s.maxIndex s.current) : currentIndex s = s.current - 1 := by
  unfold currentIndex
  unfold IsValid at h
  omega

theorem stop_lt {p : ShardParams} {maxIndex y : Nat} (hM : maxIndex < 2 ^ 32)
    (h : Stop p maxIndex y) : y < 2 ^ 32 := by
  rcases h with h | h
  · exact h.1
  · have := h.2
    omega

theorem getNextIpLoop_sound {fuel : Nat} {s : XmShard} {r : XmShard × Nat}
    (hM : s.maxIndex < 2 ^ 32) (hw : Settled s.wblist) (h : getNextIpLoop fuel s = some r) :
    ∃ m st, FirstHit s.params.step (Stop s.params s.maxIndex) s.current m ∧
      r = land s st (s.params.step^[m] s.current) := by
  induction fuel generalizing s with
  | zero => simp [getNextIpLoop] at h
  | succ fuel ih =>
    rw [getNextIpLoop] at h
    cases hn : shardGetNextElem fuel s with
    | none => simp [hn] at h
    | some q =>
      obtain ⟨k, hk, rfl⟩ := shardGetNextElem_sound hn
      have hlt : s.params.step^[k] s.current < 2 ^ 32 := hk.hit
      simp only [hn] at h
      split at h
      · rename_i hl
        cases h
        refine ⟨k, s.state, hk.mono (fun _ => stop_lt hM) (Or.inl ⟨hlt, hl⟩), ?_⟩
        rw [land, if_pos hl]
      · rename_i hl
        by_cases hv : IsValid s.maxIndex (s.params.step^[k] s.current)
        · rw [if_pos ((candidateIndex_lt hM hlt).mpr hv), candidateIndex_eq hM hv,
            lookupIndex_countWhitelisted hw] at h
          cases h
          refine ⟨k, s.countWhitelisted.state, hk.mono (fun _ => stop_lt hM) (Or.inr hv), ?_⟩
          rw [land, if_neg hl]
          rfl
        · rw [if_neg (mt (candidateIndex_lt hM hlt).mp hv)] at h
          obtain ⟨m, st, hm, rfl⟩ :=
            ih (s := XmShard.countBlacklisted { s with current := _ }) hM hw h
          refine ⟨k + m, st, hk.trans (fun _ => stop_lt hM) hm ?_, ?_⟩
          · rintro (hs | hs)
            · exact hl hs.2
            · exact hv hs
          · rw [Nat.add_comm, Function.iterate_add_apply]
            rfl

theorem getNextIpLoop_complete {fuel m : Nat} {s : XmShard} (hM : s.maxIndex < 2 ^ 32)
    (hw : Settled s.wblist)
    (h : FirstHit s.params.step (Stop s.params s.maxIndex) s.current m) (hf : m < fuel) :
    ∃ st, getNextIpLoop fuel s = some (land s st (s.params.step^[m] s.current)) := by
  induction fuel generalizing s m with
  | zero => omega
  | succ fuel ih =>
    obtain ⟨k, hk⟩ := FirstHit.of_exists (f := s.params.step) (P := (· < 2 ^ 32))
      ⟨m, h.pos, stop_lt hM h.hit⟩
    have hkm : k ≤ m := hk.le h.pos (stop_lt hM h.hit)
    have hlt : s.params.step^[k] s.current < 2 ^ 32 := hk.hit
    rw [getNextIpLoop, shardGetNextElem_complete hk (by omega)]
    dsimp only
    by_cases hl : s.params.step^[k] s.current = s.params.last
    · obtain rfl := (hk.mono (fun _ => stop_lt hM) (Or.inl ⟨hlt, hl⟩)).unique h
      rw [if_pos hl]
      exact ⟨s.state, by rw [land, if_pos hl]⟩
    · rw [if_neg hl]
      by_cases hv : IsValid s.maxIndex (s.params.step^[k] s.current)
      · obtain rfl := (hk.mono (fun _ => stop_lt hM) (Or.inr hv)).unique h
        rw [if_pos ((candidateIndex_lt hM hlt).mpr hv), candidateIndex_eq hM hv,
          lookupIndex_countWhitelisted hw]
        exact ⟨_, by rw [land, if_neg hl]; rfl⟩
      · have hne : k ≠ m := by
          rintro rfl
          exact h.hit.elim (fun hs => hl hs.2) hv
        obtain ⟨n, rfl⟩ : ∃ n, m = k + n := ⟨m - k, by omega⟩
        rw [if_neg (mt (candidateIndex_lt hM hlt).mp hv), Nat.add_comm k n,
          Function.iterate_add_apply]
        exact ih (s := XmShard.countBlacklisted { s with current := _ }) hM hw
          (h.drop (by omega)) (by have := hk.pos; omega)

end Xmap.Target
