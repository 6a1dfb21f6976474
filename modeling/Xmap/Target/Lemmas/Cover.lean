import Xmap.Target.Lemmas.Numbering

/-!
# When several shards cover a list

Shards whose walks meet the valid elements `vs i` emit every allowed address exactly once in two ways:
either all of them meet some element, or one meets none and its stray address stands for one that no
walk meets.
-/

namespace Xmap.Target

open Xmap.Lib

/-- An index below the count has the address. -/
def HasIndex (wblist : XmWblist) (ip : Nat) : Prop :=
  ∃ i < xmWblistCountAllowed wblist, (xmWblistLookupIndex wblist i).2 = ip

/-- The outputs are without repetition, pairwise disjoint and hold exactly the allowed addresses. -/
structure Partition (wblist : XmWblist) (n : Nat) (outs : Nat → List Nat) : Prop where
  nodup : ∀ i < n, (outs i).Nodup
  disjoint : ∀ i < n, ∀ j < n, i ≠ j → ∀ ip ∈ outs i, ip ∉ outs j
  union : ∀ ip < 2 ^ 32, (∃ i < n, ip ∈ outs i) ↔ xmWblistIsAllowed wblist ip = true

/-- Exactly one of the lists holds the element. -/
def OnOne (n : Nat) (vs : Nat → List Nat) (y : Nat) : Prop :=
  ∃ i < n, y ∈ vs i ∧ ∀ j < n, y ∈ vs j → j = i

/-- Every list meets a valid element, every valid element is on one list, and every allowed address has
an index. -/
structure CoversPlainly (wblist : XmWblist) (maxIndex n : Nat) (vs : Nat → List Nat) : Prop where
  nonempty : ∀ i < n, vs i ≠ []
  onOne : ∀ y, IsValid maxIndex y → OnOne n vs y
  indexed : ∀ ip < 2 ^ 32, xmWblistIsAllowed wblist ip = true → HasIndex wblist ip

/-- The list `k` alone is empty, and its stray address is the only allowed one that the others miss. -/
structure CoversByStray (wblist : XmWblist) (maxIndex n : Nat) (vs : Nat → List Nat) (k : Nat) :
    Prop where
  lt : k < n
  empty : vs k = []
  nonempty : ∀ i < n, i ≠ k → vs i ≠ []
  allowed : xmWblistIsAllowed wblist (stray wblist) = true
  onOne : ∀ y, IsValid maxIndex y → elemAddr wblist y ≠ stray wblist → OnOne n vs y
  missed : ∀ y, IsValid maxIndex y → elemAddr wblist y = stray wblist → ∀ i < n, y ∉ vs i
  indexed : ∀ ip < 2 ^ 32, xmWblistIsAllowed wblist ip = true → ip ≠ stray wblist →
    HasIndex wblist ip

variable {h : Host} {args : WblistArgs}

theorem elemAddr_inj {y z : Nat} (hy : IsValid (numbering h args).length y)
    (hz : IsValid (numbering h args).length z)
    (he : elemAddr (builtList h args) y = elemAddr (builtList h args) z) : y = z := by
  obtain ⟨a, ha, hya, hlt, _⟩ := elemAddr_of_valid hy
  obtain ⟨b, hb, hzb, hlt', _⟩ := elemAddr_of_valid hz
  obtain rfl : a = b := ntohl_inj hlt hlt' (by rw [← hya, ← hzb, he])
  have hi := (List.getElem?_inj (by have := hy.2; have := hy.1; omega) numbering_nodup).mp
    (ha.trans hb.symm)
  have := hy.1
  have := hz.1
  omega

theorem elemAddr_lt (wblist : XmWblist) (y : Nat) : elemAddr wblist y < 2 ^ 32 := ntohl_lt _

theorem hasIndex_iff {ip : Nat} :
    HasIndex (builtList h args) ip ↔
      ∃ y, IsValid (numbering h args).length y ∧ elemAddr (builtList h args) y = ip := by
  rw [HasIndex, builtList_count_eq]
  constructor
  · rintro ⟨i, hi, rfl⟩
    exact ⟨i + 1, ⟨by omega, by omega⟩, rfl⟩
  · rintro ⟨y, ⟨h0, hy⟩, rfl⟩
    exact ⟨y - 1, by omega, rfl⟩

theorem isAllowed_elemAddr {y : Nat} (hy : IsValid (numbering h args).length y) :
    xmWblistIsAllowed (builtList h args) (elemAddr (builtList h args) y) = true := by
  obtain ⟨a, _, he, ha, hel⟩ := elemAddr_of_valid hy
  rw [he]
  exact (builtList_isAllowed ha).mpr hel.admits

theorem mem_addrsOf {wblist : XmWblist} {ys : List Nat} {ip : Nat} :
    ip ∈ addrsOf wblist ys ↔
      (ys = [] ∧ ip = stray wblist) ∨ ∃ y ∈ ys, elemAddr wblist y = ip := by
  cases ys with
  | nil => simp [addrsOf]
  | cons y ys => simp [addrsOf, eq_comm]

theorem stray_lt (wblist : XmWblist) : stray wblist < 2 ^ 32 := ntohl_lt _

/-- What the walks of the shards meet. -/
structure Visits (maxIndex n : Nat) (vs : Nat → List Nat) : Prop where
  nodup : ∀ i < n, (vs i).Nodup
  valid : ∀ i < n, ∀ y ∈ vs i, IsValid maxIndex y

section
variable {n : Nat} {vs : Nat → List Nat}

theorem Visits.addrsOf_nodup (hvs : Visits (numbering h args).length n vs) {i : Nat} (hi : i < n) :
    (addrsOf (builtList h args) (vs i)).Nodup := by
  have hmap : ((vs i).map (elemAddr (builtList h args))).Nodup :=
    (hvs.nodup i hi).map_on fun y hy z hz he =>
      elemAddr_inj (hvs.valid i hi y hy) (hvs.valid i hi z hz) he
  cases hv : vs i with
  | nil => exact List.nodup_singleton _
  | cons y ys => rwa [hv] at hmap

/-- A valid element whose address is emitted is on the list, unless the address is the stray one. -/
theorem Visits.mem_of_elemAddr (hvs : Visits (numbering h args).length n vs) {i y : Nat} (hi : i < n)
    (hy : IsValid (numbering h args).length y)
    (hm : elemAddr (builtList h args) y ∈ addrsOf (builtList h args) (vs i)) :
    y ∈ vs i ∨ vs i = [] ∧ elemAddr (builtList h args) y = stray (builtList h args) := by
  rcases mem_addrsOf.mp hm with hs | ⟨z, hz, he⟩
  · exact Or.inr hs
  · rw [elemAddr_inj hy (hvs.valid i hi z hz) he.symm]
    exact Or.inl hz

theorem mem_addrsOf_of_mem {wblist : XmWblist} {ys : List Nat} {y : Nat} (hy : y ∈ ys) :
    elemAddr wblist y ∈ addrsOf wblist ys := mem_addrsOf.mpr (Or.inr ⟨y, hy, rfl⟩)

section
variable (hvs : Visits (numbering h args).length n vs)
  (hp : Partition (builtList h args) n fun i => addrsOf (builtList h args) (vs i))
include hvs hp

theorem Partition.onOne {y : Nat} (hy : IsValid (numbering h args).length y)
    (hne : ∀ i < n, vs i = [] → elemAddr (builtList h args) y ≠ stray (builtList h args)) :
    OnOne n vs y := by
  obtain ⟨i, hi, hm⟩ := (hp.union _ (elemAddr_lt _ y)).mpr (isAllowed_elemAddr hy)
  have hin : y ∈ vs i := (hvs.mem_of_elemAddr hi hy hm).resolve_right fun hs => hne i hi hs.1 hs.2
  refine ⟨i, hi, hin, fun j hj hjn => ?_⟩
  by_contra hij
  exact hp.disjoint j hj i hi hij _ (mem_addrsOf_of_mem hjn) (mem_addrsOf_of_mem hin)

theorem Partition.indexed {ip : Nat} (hlt : ip < 2 ^ 32)
    (ha : xmWblistIsAllowed (builtList h args) ip = true)
    (hne : ∀ i < n, vs i = [] → ip ≠ stray (builtList h args)) :
    HasIndex (builtList h args) ip := by
  obtain ⟨i, hi, hm⟩ := (hp.union ip hlt).mpr ha
  rcases mem_addrsOf.mp hm with ⟨he, hs⟩ | ⟨y, hy, he⟩
  · exact absurd hs (hne i hi he)
  · exact hasIndex_iff.mpr ⟨y, hvs.valid i hi y hy, he⟩

theorem Partition.covers :
    CoversPlainly (builtList h args) (numbering h args).length n vs ∨
      ∃ k, CoversByStray (builtList h args) (numbering h args).length n vs k := by
  have hstray : ∀ i < n, vs i = [] →
      stray (builtList h args) ∈ addrsOf (builtList h args) (vs i) :=
    fun i _ he => mem_addrsOf.mpr (Or.inl ⟨he, rfl⟩)
  by_cases hE : ∃ k < n, vs k = []
  · obtain ⟨k, hk, hke⟩ := hE
    have hothers : ∀ i < n, i ≠ k → vs i ≠ [] := fun i hi hik hie =>
      hp.disjoint i hi k hk hik _ (hstray i hi hie) (hstray k hk hke)
    right
    refine ⟨k, hk, hke, hothers, ?_, ?_, ?_, ?_⟩
    · exact (hp.union _ (stray_lt _)).mp ⟨k, hk, hstray k hk hke⟩
    · exact fun y hy hs => hp.onOne hvs hy fun _ _ _ => hs
    · intro y hy hs i hi hin
      have hik : i ≠ k := by
        rintro rfl
        rw [hke] at hin
        cases hin
      refine hp.disjoint k hk i hi hik.symm _ (hstray k hk hke) ?_
      rw [← hs]
      exact mem_addrsOf_of_mem hin
    · exact fun ip hlt ha hs => hp.indexed hvs hlt ha fun _ _ _ => hs
  · left
    have hnone : ∀ i < n, vs i ≠ [] := fun i hi he => hE ⟨i, hi, he⟩
    refine ⟨hnone, fun y hy => ?_, fun ip hlt ha => ?_⟩
    · exact hp.onOne hvs hy fun i hi he => absurd he (hnone i hi)
    · exact hp.indexed hvs hlt ha fun i hi he => absurd he (hnone i hi)

end

theorem CoversPlainly.partition (hvs : Visits (numbering h args).length n vs)
    (hc : CoversPlainly (builtList h args) (numbering h args).length n vs) :
    Partition (builtList h args) n fun i => addrsOf (builtList h args) (vs i) where
  nodup _ hi := hvs.addrsOf_nodup hi
  disjoint i hi j hj hij ip hip hjp := by
    obtain ⟨y, hy, rfl⟩ := (mem_addrsOf.mp hip).resolve_left fun he => hc.nonempty i hi he.1
    have hv := hvs.valid i hi y hy
    have hyj := (hvs.mem_of_elemAddr hj hv hjp).resolve_right fun he => hc.nonempty j hj he.1
    obtain ⟨k, _, _, huniq⟩ := hc.onOne y hv
    exact hij ((huniq i hi hy).trans (huniq j hj hyj).symm)
  union ip hlt := by
    constructor
    · rintro ⟨i, hi, hip⟩
      obtain ⟨y, hy, rfl⟩ := (mem_addrsOf.mp hip).resolve_left fun he => hc.nonempty i hi he.1
      exact isAllowed_elemAddr (hvs.valid i hi y hy)
    · intro ha
      obtain ⟨y, hy, rfl⟩ := hasIndex_iff.mp (hc.indexed ip hlt ha)
      obtain ⟨i, hi, hin, _⟩ := hc.onOne y hy
      exact ⟨i, hi, mem_addrsOf_of_mem hin⟩

theorem CoversByStray.partition {k : Nat} (hvs : Visits (numbering h args).length n vs)
    (hc : CoversByStray (builtList h args) (numbering h args).length n vs k) :
    Partition (builtList h args) n fun i => addrsOf (builtList h args) (vs i) := by
  have hk : addrsOf (builtList h args) (vs k) = [stray (builtList h args)] := by
    rw [hc.empty]
    rfl
  have hother : ∀ i < n, i ≠ k → ∀ ip ∈ addrsOf (builtList h args) (vs i),
      ∃ y ∈ vs i, elemAddr (builtList h args) y = ip ∧ ip ≠ stray (builtList h args) := by
    intro i hi hik ip hip
    obtain ⟨y, hy, he⟩ := (mem_addrsOf.mp hip).resolve_left fun hs => hc.nonempty i hi hik hs.1
    refine ⟨y, hy, he, fun hs => ?_⟩
    exact hc.missed y (hvs.valid i hi y hy) (he.trans hs) i hi hy
  refine ⟨fun _ hi => hvs.addrsOf_nodup hi, fun i hi j hj hij ip hip hjp => ?_, fun ip hlt => ?_⟩
  · by_cases hik : i = k
    · subst hik
      rw [hk, List.mem_singleton] at hip
      obtain ⟨_, _, _, hs⟩ := hother j hj (Ne.symm hij) ip hjp
      exact hs hip
    · obtain ⟨y, hy, he, hs⟩ := hother i hi hik ip hip
      have hv := hvs.valid i hi y hy
      have hjk : j ≠ k := by
        rintro rfl
        rw [hk, List.mem_singleton] at hjp
        exact hs hjp
      rw [← he] at hjp
      have hyj := (hvs.mem_of_elemAddr hj hv hjp).resolve_right fun hn =>
        hc.nonempty j hj hjk hn.1
      obtain ⟨l, _, _, huniq⟩ := hc.onOne y hv (he ▸ hs)
      exact hij ((huniq i hi hy).trans (huniq j hj hyj).symm)
  · constructor
    · rintro ⟨i, hi, hip⟩
      by_cases hik : i = k
      · subst hik
        rw [hk, List.mem_singleton] at hip
        rw [hip]
        exact hc.allowed
      · obtain ⟨y, hy, rfl, _⟩ := hother i hi hik ip hip
        exact isAllowed_elemAddr (hvs.valid i hi y hy)
    · intro ha
      by_cases hs : ip = stray (builtList h args)
      · exact ⟨k, hc.lt, by rw [hk, hs]; exact List.mem_cons_self⟩
      · obtain ⟨y, hy, rfl⟩ := hasIndex_iff.mp (hc.indexed ip hlt ha hs)
        obtain ⟨i, hi, hin, _⟩ := hc.onOne y hy hs
        exact ⟨i, hi, mem_addrsOf_of_mem hin⟩

theorem partition_iff (hvs : Visits (numbering h args).length n vs) :
    Partition (builtList h args) n (fun i => addrsOf (builtList h args) (vs i)) ↔
      CoversPlainly (builtList h args) (numbering h args).length n vs ∨
        ∃ k, CoversByStray (builtList h args) (numbering h args).length n vs k := by
  constructor
  · exact fun hp => hp.covers hvs
  · rintro (hc | ⟨k, hc⟩)
    · exact hc.partition hvs
    · exact hc.partition hvs

end

end Xmap.Target
