import Mathlib.Tactic

/-!
# Runs of a step function

A system takes a step for an action, or the action is not enabled. A run is a list of actions; it reaches the
states before and after its steps.
-/

namespace Xmap.Lib

variable {S A : Type} (step : S → A → Option S)

/-- The states that a run reaches, up to the first action that is not enabled. -/
def states : S → List A → List S
  | s, [] => [s]
  | s, a :: as =>
    s :: match step s a with
      | none => []
      | some t => states t as

/-- Every step of the run meets the condition on its state and its action. -/
def Meets (fine : S → A → Prop) : S → List A → Prop
  | _, [] => True
  | s, a :: as =>
    match step s a with
    | none => True
    | some t => fine s a ∧ Meets fine t as

instance Meets.decidable {step : S → A → Option S} {fine : S → A → Prop}
    [∀ s a, Decidable (fine s a)] : ∀ s as, Decidable (Meets step fine s as)
  | _, [] => .isTrue trivial
  | s, a :: as =>
    match h : step s a with
    | none => .isTrue (by simp [Meets, h])
    | some t =>
      have : Decidable (Meets step fine t as) := Meets.decidable t as
      decidable_of_iff (fine s a ∧ Meets step fine t as) (by simp [Meets, h])

/-- Whatever steps are taken, some state with the property is reached. -/
inductive Inevitable (Q : S → Prop) : S → Prop where
  | now {s : S} (h : Q s) : Inevitable Q s
  | later {s : S} (enabled : ∃ a t, step s a = some t)
      (next : ∀ a t, step s a = some t → Inevitable Q t) : Inevitable Q s

section
variable {step} {I P Q : S → Prop} {fine : S → A → Prop} {s : S} {as : List A}

theorem self_mem_states : s ∈ states step s as := by
  cases as <;> simp [states]

theorem states_cons_of_some {a : A} {t : S} (h : step s a = some t) :
    states step s (a :: as) = s :: states step t as := by
  rw [states, h]

theorem states_cons_of_none {a : A} (h : step s a = none) : states step s (a :: as) = [s] := by
  rw [states, h]

theorem mem_states_of_some {a : A} {t : S} (h : step s a = some t) : t ∈ states step s [a] := by
  rw [states_cons_of_some h]
  exact List.mem_cons_of_mem _ self_mem_states

/-- A step from a state that a run reaches leads to a state that a run reaches. -/
theorem mem_states_step {t u : S} {a : A} (ht : t ∈ states step s as) (h : step t a = some u) :
    ∃ as', u ∈ states step s as' := by
  induction as generalizing s with
  | nil =>
    obtain rfl := List.mem_singleton.mp ht
    exact ⟨[a], mem_states_of_some h⟩
  | cons b as ih =>
    cases hb : step s b with
    | none =>
      rw [states_cons_of_none hb, List.mem_singleton] at ht
      exact ⟨[a], mem_states_of_some (ht ▸ h)⟩
    | some v =>
      rw [states_cons_of_some hb] at ht
      cases List.mem_cons.mp ht with
      | inl hts => exact ⟨[a], mem_states_of_some (hts ▸ h)⟩
      | inr hrest =>
        obtain ⟨as', hu⟩ := ih hrest
        refine ⟨b :: as', ?_⟩
        rw [states_cons_of_some hb]
        exact List.mem_cons_of_mem _ hu

/-- What holds at the start and is kept by the steps that meet the condition holds in every state that a
run of such steps reaches. -/
theorem states_of_meets (hstep : ∀ s a t, step s a = some t → fine s a → I s → I t) (hs : I s)
    (has : Meets step fine s as) : ∀ t ∈ states step s as, I t := by
  induction as generalizing s with
  | nil => simpa [states] using hs
  | cons a as ih =>
    cases ht : step s a with
    | none =>
      rw [states_cons_of_none ht]
      simpa using hs
    | some t =>
      simp only [Meets, ht] at has
      rw [states_cons_of_some ht]
      intro u hu
      cases List.mem_cons.mp hu with
      | inl hus => exact hus ▸ hs
      | inr hu => exact ih (hstep s a t ht has.1 hs) has.2 u hu

/-- An invariant holds in every state that a run reaches. -/
theorem states_invariant (hstep : ∀ s a t, step s a = some t → I s → I t) (hs : I s) :
    ∀ t ∈ states step s as, I t := by
  have hall : Meets step (fun _ _ => True) s as := by
    induction as generalizing s with
    | nil => trivial
    | cons a as ih =>
      unfold Meets
      split
      · trivial
      · next t ht => exact ⟨trivial, ih (hstep s a t ht hs)⟩
  exact states_of_meets (fun s a t ht _ => hstep s a t ht) hs hall

/-- Where a step keeps a property exactly when it meets the condition, the property holds throughout a run
exactly when all its steps do. -/
theorem states_iff_meets (hI : ∀ s a t, step s a = some t → I s → I t)
    (hP : ∀ s a t, step s a = some t → I s → P s → (P t ↔ fine s a)) (hs : I s) (hp : P s) :
    (∀ t ∈ states step s as, P t) ↔ Meets step fine s as := by
  induction as generalizing s with
  | nil => simpa [states, Meets] using hp
  | cons a as ih =>
    cases ht : step s a with
    | none =>
      rw [states_cons_of_none ht]
      simpa [Meets, ht] using hp
    | some t =>
      have hnext := hP s a t ht hs hp
      rw [states_cons_of_some ht, List.forall_mem_cons]
      simp only [Meets, ht]
      constructor
      · rintro ⟨_, hrest⟩
        have hpt := hrest t self_mem_states
        exact ⟨hnext.mp hpt, (ih (hI s a t ht hs) hpt).mp hrest⟩
      · rintro ⟨hfine, hrest⟩
        have hpt := hnext.mpr hfine
        exact ⟨hp, (ih (hI s a t ht hs) hpt).mpr hrest⟩

/-- A property is inevitable where, until it holds, some step is enabled and every step decreases a
measure. -/
theorem Inevitable.of_measure (μ : S → Nat)
    (henabled : ∀ s, I s → ¬ Q s → ∃ a t, step s a = some t)
    (hstep : ∀ s a t, step s a = some t → I s → ¬ Q s → I t ∧ μ t < μ s) (hs : I s) :
    Inevitable step Q s := by
  induction hn : μ s using Nat.strong_induction_on generalizing s with
  | _ n ih =>
    by_cases hq : Q s
    · exact .now hq
    · refine .later (henabled s hs hq) fun a t ht => ?_
      obtain ⟨hi, hlt⟩ := hstep s a t ht hs hq
      exact ih (μ t) (hn ▸ hlt) hi rfl

end

end Xmap.Lib
