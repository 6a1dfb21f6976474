import Xmap.Target.Lemmas.Drawn

/-!
# The shards of the senders

Sender `t` draws its cycle from the words `2 t` and `2 t + 1`, and its shard is the subshard `t + 1`.
-/

namespace Xmap.Target

open Xmap.Lib

/-! ## More fuel -/

section
variable {fuel fuel' : Nat} {s : XmShard} {r : XmShard × Nat}

theorem shardGetNextElem_mono (h : shardGetNextElem fuel s = some r) (hle : fuel ≤ fuel') :
    shardGetNextElem fuel' s = some r := by
  induction fuel generalizing s fuel' with
  | zero => simp [shardGetNextElem] at h
  | succ fuel ih =>
    obtain ⟨fuel', rfl⟩ : ∃ k, fuel' = k + 1 := ⟨fuel' - 1, by omega⟩
    simp only [shardGetNextElem] at h ⊢
    split
    · rw [if_pos (by assumption)] at h
      exact ih h (by omega)
    · rwa [if_neg (by assumption)] at h

theorem getNextIpLoop_mono (h : getNextIpLoop fuel s = some r) (hle : fuel ≤ fuel') :
    getNextIpLoop fuel' s = some r := by
  induction fuel generalizing s fuel' with
  | zero => simp [getNextIpLoop] at h
  | succ fuel ih =>
    obtain ⟨fuel', rfl⟩ : ∃ k, fuel' = k + 1 := ⟨fuel' - 1, by omega⟩
    rw [getNextIpLoop] at h ⊢
    cases he : shardGetNextElem fuel s with
    | none => simp [he] at h
    | some e =>
      rw [shardGetNextElem_mono he (by omega)]
      simp only [he] at h ⊢
      split_ifs at h ⊢
      · exact h
      · exact h
      · exact ih h (by omega)

theorem xmShardCreate_mono {st : ShardState} {shardIdx numShards threadIdx numThreads maxTotal
    maxIndex : Nat} {c : XmCycle} {wblist : XmWblist}
    (h : xmShardCreate fuel st shardIdx numShards threadIdx numThreads maxTotal maxIndex c wblist =
      some s) (hle : fuel ≤ fuel') :
    xmShardCreate fuel' st shardIdx numShards threadIdx numThreads maxTotal maxIndex c wblist =
      some s := by
  obtain ⟨r, hr, rfl⟩ := Option.map_eq_some_iff.mp h
  refine Option.map_eq_some_iff.mpr ⟨r, ?_, rfl⟩
  unfold shardRollToValid xmShardGetNextIp at hr ⊢
  split_ifs at hr ⊢
  · exact hr
  · exact hr
  · exact getNextIpLoop_mono hr hle

theorem xmShardCreate_of_valid {st : ShardState} {shardIdx numShards threadIdx numThreads maxTotal
    maxIndex : Nat} {c : XmCycle} {wblist : XmWblist}
    (h : currentIndex (newShard st (numShards * numThreads) (subIdx shardIdx threadIdx numThreads)
      maxTotal maxIndex c wblist) < maxIndex) :
    xmShardCreate fuel st shardIdx numShards threadIdx numThreads maxTotal maxIndex c wblist =
      some (newShard st (numShards * numThreads) (subIdx shardIdx threadIdx numThreads) maxTotal
        maxIndex c wblist) := by
  unfold xmShardCreate shardRollToValid
  rw [newShard_maxIndex, if_pos h]
  rfl

end

/-! ## The cycles -/

theorem Draws.rest_eq {count : Nat} {aes aes' : XmAesrand} {c : XmCycle}
    (h : Draws count aes c aes') : aes' = { aes with pos := aes.pos + 2 } := by
  obtain ⟨g, _, hc⟩ := h
  unfold xmMakeCycle at hc
  split at hc
  · cases hc
  · cases hc
    rfl

/-- The cycle of sender `t`. -/
def SenderDraws (count : Nat) (aes : XmAesrand) (t : Nat) (c : XmCycle) : Prop :=
  ∃ aes', Draws count { aes with pos := aes.pos + 2 * t } c aes'

theorem senderDraws_succ {count t : Nat} {aes aes' : XmAesrand} {c c' : XmCycle}
    (h : Draws count aes c aes') :
    SenderDraws count aes (t + 1) c' ↔ SenderDraws count aes' t c' := by
  obtain rfl := h.rest_eq
  rw [SenderDraws, SenderDraws, show aes.pos + 2 * (t + 1) = aes.pos + 2 + 2 * t by omega]

/-! ## The shards -/

section
variable {fuel : Nat} {st : ShardState} {context : SendContext} {aes : XmAesrand}

/-- `_create_shard` for sender `t`. -/
def SenderShard (fuel : Nat) (st : ShardState) (context : SendContext) (c : XmCycle)
    (threadIdx : Nat) (s : XmShard) : Prop :=
  xmShardCreate fuel st context.shardNum context.totalShards threadIdx context.senders
    context.maxTargets (sendMaxIndex (xmWblistCountAllowed context.wblist)) c context.wblist = some s

theorem sendCreateShard_eq_some {threadIdx : Nat} {s : XmShard} {aes' : XmAesrand} :
    sendCreateShard fuel st context aes threadIdx = some (s, aes') ↔
      ∃ c, Draws (xmWblistCountAllowed context.wblist) aes c aes' ∧
        SenderShard fuel st context c threadIdx s := by
  unfold sendCreateShard Draws SenderShard
  generalize xmWblistCountAllowed context.wblist = count
  dsimp only
  constructor
  · intro hs
    cases hg : xmGetCyclicGroup count with
    | none => simp [hg] at hs
    | some g =>
      cases hc : xmMakeCycle g aes with
      | none => simp [hg, hc] at hs
      | some r =>
        simp only [hg, hc, Option.map_eq_some_iff, Prod.mk.injEq] at hs
        obtain ⟨_, hs, rfl, rfl⟩ := hs
        exact ⟨r.1, ⟨g, rfl, hc⟩, hs⟩
  · rintro ⟨c, ⟨g, hg, hc⟩, hs⟩
    simp only [hg, hc, hs]
    rfl

theorem workCreateShards_eq_some {st : Nat → ShardState} {n i : Nat} {shards : List XmShard} :
    workCreateShards fuel st context n i aes = some shards ↔
      ∃ s : Nat → XmShard, shards = (List.range n).map s ∧
        ∀ t < n, ∃ c, SenderDraws (xmWblistCountAllowed context.wblist) aes t c ∧
          SenderShard fuel (st (i + t)) context c ((i + t + 1) % 2 ^ 8) (s t) := by
  induction n generalizing i aes shards with
  | zero =>
    have : Nonempty XmShard := ⟨⟨st 0, ⟨0, 0, 0, 0⟩, 0, 0, context.wblist⟩⟩
    simp [workCreateShards, eq_comm]
  | succ n ih =>
    rw [workCreateShards]
    constructor
    · intro h
      cases hs : sendCreateShard fuel (st i) context aes ((i + 1) % 2 ^ 8) with
      | none =>
        rw [hs] at h
        cases h
      | some r =>
        obtain ⟨s, aes'⟩ := r
        obtain ⟨c, hd, hc⟩ := sendCreateShard_eq_some.mp hs
        rw [hs] at h
        simp only [Option.map_eq_some_iff] at h
        obtain ⟨rest, hrest, rfl⟩ := h
        obtain ⟨f, rfl, hf⟩ := ih.mp hrest
        refine ⟨fun t => t.casesOn s f, ?_, fun t ht => ?_⟩
        · rw [List.range_succ_eq_map, List.map_cons, List.map_map]
          rfl
        · cases t with
          | zero => exact ⟨c, ⟨aes', hd⟩, hc⟩
          | succ t =>
            obtain ⟨c', hd', hc'⟩ := hf t (by omega)
            rw [← senderDraws_succ hd] at hd'
            rw [show i + 1 + t = i + (t + 1) by omega] at hc'
            exact ⟨c', hd', hc'⟩
    · rintro ⟨f, rfl, hf⟩
      obtain ⟨c, ⟨aes', hd⟩, hc⟩ := hf 0 (by omega)
      rw [Nat.mul_zero, Nat.add_zero] at hd
      rw [Nat.add_zero] at hc
      rw [sendCreateShard_eq_some.mpr ⟨c, hd, hc⟩]
      simp only [Option.map_eq_some_iff]
      refine ⟨(List.range n).map fun t => f (t + 1), ih.mpr ⟨_, rfl, fun t ht => ?_⟩, ?_⟩
      · obtain ⟨c', hd', hc'⟩ := hf (t + 1) (by omega)
        rw [senderDraws_succ hd] at hd'
        rw [show i + (t + 1) = i + 1 + t by omega] at hc'
        exact ⟨c', hd', hc'⟩
      · rw [List.range_succ_eq_map, List.map_cons, List.map_map]
        rfl

end

/-! ## What the senders emit -/

theorem workEmits_iff {st : Nat → ShardState} {context : SendContext} {aes : XmAesrand}
    {outs : List (List Nat)} :
    WorkEmits st context aes outs ↔
      ∃ f : Nat → List Nat, outs = (List.range context.senders).map f ∧
        ∀ t < context.senders, ∃ c,
          SenderDraws (xmWblistCountAllowed context.wblist) aes t c ∧
          ∃ fuel s, SenderShard fuel (st t) context c ((t + 1) % 2 ^ 8) s ∧
            ∃ fuel, emit fuel s = some (f t) := by
  simp only [WorkEmits, workCreateShards_eq_some]
  constructor
  · rintro ⟨fuel, _, ⟨s, rfl, hs⟩, hall⟩
    obtain ⟨hlen, hget⟩ := List.forall₂_iff_get.mp hall
    rw [List.length_map, List.length_range] at hlen
    refine ⟨fun t => outs.getD t [], ?_, fun t ht => ?_⟩
    · refine List.ext_getElem (by simp [hlen]) fun t ht _ => ?_
      simp [ht]
    · obtain ⟨c, hd, hc⟩ := hs t ht
      obtain ⟨fuel', hout⟩ := hget t (by simpa using ht) (by omega)
      refine ⟨c, hd, fuel, s t, by rwa [Nat.zero_add] at hc, fuel', ?_⟩
      simpa [hlen ▸ ht] using hout
  · rintro ⟨f, rfl, hf⟩
    have : Nonempty XmShard := ⟨⟨st 0, ⟨0, 0, 0, 0⟩, 0, 0, context.wblist⟩⟩
    choose! c hd fuel s hs fuel' hout using hf
    -- one amount of fuel for all senders
    refine ⟨(Finset.range context.senders).sup fuel, _, ⟨s, rfl, fun t ht => ⟨c t ht, hd t ht, ?_⟩⟩, ?_⟩
    · rw [Nat.zero_add]
      exact xmShardCreate_mono (hs t ht) (Finset.le_sup (Finset.mem_range.mpr ht))
    · rw [List.forall₂_map_left_iff, List.forall₂_map_right_iff, List.forall₂_same]
      exact fun t ht => ⟨fuel' t, hout t (List.mem_range.mp ht)⟩

end Xmap.Target
