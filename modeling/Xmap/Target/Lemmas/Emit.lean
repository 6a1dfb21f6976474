import Xmap.Target.Lemmas.Shard

/-!
# What a shard emits

The emission of a shard, from the roll to its first valid element on, in terms of its walk alone.
-/

namespace Xmap.Target

open Xmap.Lib

/-- The address of a valid element. -/
def elemAddr (wblist : XmWblist) (y : Nat) : Nat := addrAt wblist (y - 1)

/-- What the emission needs of a list: it is painted, its indices have addresses other than 0.0.0.0,
and so has the index before the first one. -/
structure Ready (maxIndex : Nat) (wblist : XmWblist) : Prop where
  maxIndex_lt : maxIndex < 2 ^ 32
  settled : Settled wblist
  addr_ne : ∀ y, IsValid maxIndex y → elemAddr wblist y ≠ 0
  stray_ne : stray wblist ≠ 0

/-- The addresses of a shard whose walk meets the valid elements `ys`. -/
def addrsOf (wblist : XmWblist) : List Nat → List Nat
  | [] => [stray wblist]
  | y :: ys => (y :: ys).map (elemAddr wblist)

abbrev XmShard.Scan (s : XmShard) (x : Nat) (l : List Nat) : Prop :=
  Scans s.params.step s.params.IsLast (IsValid s.maxIndex) x l

section
variable {fuel : Nat} {s : XmShard}

theorem xmShardGetNextIp_of_ne (h : s.current ≠ 0) :
    xmShardGetNextIp fuel s = getNextIpLoop fuel s := if_neg h

theorem xmShardGetNextIp_of_zero (h : s.current = 0) : xmShardGetNextIp fuel s = some (s, 0) :=
  if_pos h

theorem land_last {st : ShardState} {y : Nat} (h : s.params.IsLast y) :
    land s st y = ({ s with state := st, current := xmShardDone }, xmShardDone) := if_pos h.2

theorem land_valid {st : ShardState} {y : Nat} (hy : y < 2 ^ 32) (h : ¬ s.params.IsLast y) :
    land s st y = ({ s with state := st, current := y }, elemAddr s.wblist y) :=
  if_neg fun hl => h ⟨hy, hl⟩

theorem emitFrom_succ {ip : Nat} (hip : ip ≠ 0) :
    emitFrom (fuel + 1) s ip =
      match xmShardGetNextIp fuel s with
      | none => none
      | some (s, next) => (emitFrom fuel s next).map (ip :: ·) := if_neg hip

theorem emitFrom_done (hf : 0 < fuel) : emitFrom fuel s xmShardDone = some [] := by
  obtain ⟨fuel, rfl⟩ : ∃ k, fuel = k + 1 := ⟨fuel - 1, by omega⟩
  rfl

theorem emitFrom_sound {ip : Nat} {out : List Nat} (hr : Ready s.maxIndex s.wblist)
    (hc : s.current ≠ 0) (hip : ip ≠ 0) (h : emitFrom fuel s ip = some out) :
    ∃ l, s.Scan s.current l ∧ out = ip :: l.map (elemAddr s.wblist) := by
  induction fuel generalizing s ip out with
  | zero => simp [emitFrom] at h
  | succ fuel ih =>
    rw [emitFrom_succ hip, xmShardGetNextIp_of_ne hc] at h
    cases hn : getNextIpLoop fuel s with
    | none => simp [hn] at h
    | some r =>
      obtain ⟨m, st, hm, rfl⟩ := getNextIpLoop_sound hr.maxIndex_lt hr.settled hn
      simp only [hn, Option.map_eq_some_iff] at h
      obtain ⟨rest, hrest, rfl⟩ := h
      have hlt := stop_lt hr.maxIndex_lt hm.hit
      by_cases hl : s.params.IsLast (s.params.step^[m] s.current)
      · rw [land_last hl, emitFrom_done (by cases fuel <;> simp_all [emitFrom])] at hrest
        cases hrest
        exact ⟨[], .done hm hl, rfl⟩
      · have hv : IsValid s.maxIndex _ := hm.hit.resolve_left hl
        rw [land_valid hlt hl] at hrest
        obtain ⟨l, hs, rfl⟩ := ih (s := { s with state := st, current := _ }) hr
          (Nat.ne_of_gt hv.1) (hr.addr_ne _ hv) hrest
        exact ⟨_, .next hm hl hs, rfl⟩

theorem emitFrom_complete {x : Nat} {l : List Nat} (hr : Ready s.maxIndex s.wblist)
    (h : s.Scan x l) (hx : x ≠ 0) :
    ∃ n, ∀ fuel ≥ n, ∀ st, ∀ ip ≠ 0,
      emitFrom fuel { s with state := st, current := x } ip =
        some (ip :: l.map (elemAddr s.wblist)) := by
  induction h with
  | @done x m hm hl =>
    refine ⟨m + 2, fun fuel hf st ip hip => ?_⟩
    obtain ⟨fuel, rfl⟩ : ∃ k, fuel = k + 1 := ⟨fuel - 1, by omega⟩
    obtain ⟨st', hn⟩ := getNextIpLoop_complete (s := { s with state := st, current := x })
      hr.maxIndex_lt hr.settled hm (show m < fuel by omega)
    rw [emitFrom_succ hip, xmShardGetNextIp_of_ne hx, hn,
      land_last (s := { s with state := st, current := x }) hl]
    dsimp only
    rw [emitFrom_done (by omega)]
    rfl
  | @next x m l hm hl _ ih =>
    have hv : IsValid s.maxIndex (s.params.step^[m] x) := hm.hit.resolve_left hl
    obtain ⟨n, hn⟩ := ih (Nat.ne_of_gt hv.1)
    refine ⟨m + n + 2, fun fuel hf st ip hip => ?_⟩
    obtain ⟨fuel, rfl⟩ : ∃ k, fuel = k + 1 := ⟨fuel - 1, by omega⟩
    obtain ⟨st', hn'⟩ := getNextIpLoop_complete (s := { s with state := st, current := x })
      hr.maxIndex_lt hr.settled hm (show m < fuel by omega)
    rw [emitFrom_succ hip, xmShardGetNextIp_of_ne hx, hn',
      land_valid (s := { s with state := st, current := x }) (stop_lt hr.maxIndex_lt hm.hit) hl]
    dsimp only
    rw [hn fuel (by omega) st' _ (hr.addr_ne _ hv)]
    rfl

/-! ## From the roll on -/

theorem emit_done {st : ShardState} {out : List Nat} (hr : Ready s.maxIndex s.wblist) :
    emit fuel { s with state := st, current := 0 } = some out ↔
      1 < fuel ∧ out = [stray s.wblist] := by
  have hc : xmShardGetCurIp { s with state := st, current := 0 } =
      ({ s with state := st, current := 0 }, stray s.wblist) := by
    rw [xmShardGetCurIp, lookupIndex_eq (s := { s with state := st, current := 0 }) hr.settled]
    simp [currentIndex, stray]
  rw [emit, hc]
  have hne := hr.stray_ne
  match fuel with
  | 0 => simp [emitFrom]
  | 1 => simp [xmShardGetNextIp, xmShardDone, emitFrom, hne]
  | fuel + 2 => simp [xmShardGetNextIp, xmShardDone, emitFrom, hne, eq_comm]

theorem xmShardGetCurIp_valid (hr : Ready s.maxIndex s.wblist)
    (hv : IsValid s.maxIndex s.current) : xmShardGetCurIp s = (s, elemAddr s.wblist s.current) := by
  rw [xmShardGetCurIp, lookupIndex_eq hr.settled, currentIndex_of_valid hr.maxIndex_lt hv]
  rfl

theorem emit_valid {out : List Nat} (hr : Ready s.maxIndex s.wblist)
    (hv : IsValid s.maxIndex s.current) :
    (∃ fuel, emit fuel s = some out) ↔
      ∃ l, s.Scan s.current l ∧ out = (s.current :: l).map (elemAddr s.wblist) := by
  have hne := hr.addr_ne _ hv
  simp only [emit, xmShardGetCurIp_valid hr hv]
  constructor
  · rintro ⟨fuel, h⟩
    exact emitFrom_sound hr (Nat.ne_of_gt hv.1) hne h
  · rintro ⟨l, hs, rfl⟩
    obtain ⟨n, hn⟩ := emitFrom_complete hr hs (Nat.ne_of_gt hv.1)
    exact ⟨n, hn n le_rfl s.state _ hne⟩

/-- The emission of a shard not yet rolled, with some amount of fuel for each part. -/
def Emits (s : XmShard) (out : List Nat) : Prop :=
  ∃ fuel r, shardRollToValid fuel s = some r ∧ ∃ fuel', emit fuel' r.1 = some out

theorem emits_iff {out : List Nat} (hr : Ready s.maxIndex s.wblist) (h0 : s.current ≠ 0)
    (hc : s.current < 2 ^ 64) :
    Emits s out ↔ ∃ l, s.Scan s.current l ∧
      out = addrsOf s.wblist (if IsValid s.maxIndex s.current then s.current :: l else l) := by
  by_cases hv : IsValid s.maxIndex s.current
  · have hroll : ∀ fuel, shardRollToValid fuel s = some (s, s.current % 2 ^ 32) :=
      fun fuel => if_pos ((currentIndex_lt hr.maxIndex_lt hc).mpr hv)
    simp only [Emits, hroll, Option.some.injEq, exists_eq_left', exists_const, emit_valid hr hv,
      if_pos hv]
    rfl
  · have hroll : ∀ fuel, shardRollToValid fuel s = getNextIpLoop fuel s := by
      intro fuel
      rw [shardRollToValid, if_neg (mt (currentIndex_lt hr.maxIndex_lt hc).mp hv),
        xmShardGetNextIp_of_ne h0]
    simp only [Emits, hroll, if_neg hv]
    constructor
    · rintro ⟨fuel, r, hn, hout⟩
      obtain ⟨m, st, hm, rfl⟩ := getNextIpLoop_sound hr.maxIndex_lt hr.settled hn
      by_cases hl : s.params.IsLast (s.params.step^[m] s.current)
      · rw [land_last hl] at hout
        obtain ⟨_, hout⟩ := hout
        obtain ⟨_, rfl⟩ := (emit_done hr).mp hout
        exact ⟨[], .done hm hl, rfl⟩
      · have hv' : IsValid s.maxIndex _ := hm.hit.resolve_left hl
        rw [land_valid (stop_lt hr.maxIndex_lt hm.hit) hl] at hout
        obtain ⟨l, hs, rfl⟩ := (emit_valid (s := { s with state := st, current := _ }) hr hv').mp hout
        exact ⟨_, .next hm hl hs, rfl⟩
    · rintro ⟨l, hs, rfl⟩
      cases hs with
      | done hm hl =>
        obtain ⟨st, hn⟩ := getNextIpLoop_complete hr.maxIndex_lt hr.settled hm (Nat.lt_succ_self _)
        refine ⟨_, _, hn, 2, ?_⟩
        rw [land_last hl]
        exact (emit_done hr).mpr ⟨by omega, rfl⟩
      | next hm hl hs =>
        have hv' : IsValid s.maxIndex _ := hm.hit.resolve_left hl
        obtain ⟨st, hn⟩ := getNextIpLoop_complete hr.maxIndex_lt hr.settled hm (Nat.lt_succ_self _)
        refine ⟨_, _, hn, ?_⟩
        rw [land_valid (stop_lt hr.maxIndex_lt hm.hit) hl]
        exact (emit_valid (s := { s with state := st, current := _ }) hr hv').mpr ⟨_, hs, rfl⟩

end

/-! ## Whole walks -/

/-- A walk of the parameters that meets its last element after `m` steps. -/
def ShardParams.Closes (p : ShardParams) (m : Nat) : Prop := FirstHit p.step p.IsLast p.first m

/-- The valid elements of the first `m` elements of the walk. -/
def ShardParams.visits (p : ShardParams) (maxIndex m : Nat) : List Nat :=
  (walk p.step p.first m).filter (IsValid maxIndex)

/-- A shard emits the addresses of the valid elements of its walk, and it does so exactly when the walk
meets its last element. -/
theorem emits_iff_closes {s : XmShard} {out : List Nat} (hr : Ready s.maxIndex s.wblist)
    (h0 : s.current ≠ 0) (hc : s.current < 2 ^ 64) (hfirst : s.current = s.params.first) :
    Emits s out ↔
      ∃ m, s.params.Closes m ∧ out = addrsOf s.wblist (s.params.visits s.maxIndex m) := by
  have hcons : ∀ m, (walk s.params.step s.current (m + 1)).filter (IsValid s.maxIndex) =
      if IsValid s.maxIndex s.current then
        s.current :: (walk s.params.step (s.params.step s.current) m).filter (IsValid s.maxIndex)
      else (walk s.params.step (s.params.step s.current) m).filter (IsValid s.maxIndex) := by
    intro m
    rw [walk_succ, List.filter_cons]
    simp only [decide_eq_true_eq]
  rw [emits_iff hr h0 hc]
  simp only [ShardParams.Closes, ShardParams.visits, ← hfirst]
  constructor
  · rintro ⟨l, hs, rfl⟩
    obtain ⟨m, hm, rfl⟩ := hs.exists_firstHit
    exact ⟨m + 1, hm, by rw [hcons]⟩
  · rintro ⟨m, hm, rfl⟩
    obtain ⟨m, rfl⟩ : ∃ k, m = k + 1 := ⟨m - 1, by have := hm.pos; omega⟩
    exact ⟨_, hm.scans, by rw [hcons]⟩

theorem groups_prime_lt (g : GroupPtr) : g.val.prime < 2 ^ 33 := by
  have : ∀ g ∈ groups, g.prime < 2 ^ 33 := by decide
  exact this g.val g.property

theorem newShard_current_lt (st : ShardState) (n i maxTargets maxIndex : Nat) (cycle : XmCycle)
    (wblist : XmWblist) : (newShard st n i maxTargets maxIndex cycle wblist).current < 2 ^ 64 := by
  have hp := groups_prime_lt cycle.group
  have hc : (newShard st n i maxTargets maxIndex cycle wblist).current < cycle.group.val.prime :=
    Nat.mod_lt _ (groups_prime_pos cycle.group)
  omega

end Xmap.Target
