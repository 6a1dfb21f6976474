import Mathlib.Tactic

/-!
# Computations that read a memory

A computation gets at a memory only through its reads, so that what it returns depends on nothing but the
cells that it read.
-/

namespace Xmap.Lib

inductive Reads (β α : Type) where
  | done (x : α)
  | read (a : Nat) (next : β → Reads β α)

namespace Reads

variable {α β γ : Type}

def bind : Reads β α → (α → Reads β γ) → Reads β γ
  | done x, f => f x
  | read a next, f => read a fun b => (next b).bind f

instance : Monad (Reads β) where
  pure := done
  bind := bind

def run (m : Nat → β) : Reads β α → α
  | done x => x
  | read a next => (next (m a)).run m

/-- The addresses that are read from a memory, in order. -/
def addresses (m : Nat → β) : Reads β α → List Nat
  | done _ => []
  | read a next => a :: (next (m a)).addresses m

def cell (a : Nat) : Reads β β := read a done

/-- The cells of a block, from the first on. -/
def block : Nat → Nat → Reads β (List β)
  | _, 0 => pure []
  | a, n + 1 => do
    let b ← cell a
    let bs ← block (a + 1) n
    return b :: bs

section
variable {m p : Nat → β} {x : Reads β α} {f : α → Reads β γ} {a n : Nat}

/-- Memories that agree on what is read from one of them are not told apart. -/
theorem run_congr (h : ∀ a ∈ x.addresses m, p a = m a) : x.run p = x.run m := by
  induction x with
  | done x => rfl
  | read a next ih =>
    rw [addresses, List.forall_mem_cons] at h
    rw [run, run, h.1]
    exact ih (m a) h.2

@[simp] theorem run_pure (y : α) : (pure y : Reads β α).run m = y := rfl

@[simp] theorem run_cell : (cell a).run m = m a := rfl

@[simp] theorem run_bind : (x >>= f).run m = (f (x.run m)).run m := by
  induction x with
  | done x => rfl
  | read a next ih => exact ih (m a)

theorem run_ite {c : Prop} [Decidable c] {y z : Reads β α} :
    (if c then y else z).run m = if c then y.run m else z.run m := apply_ite _ _ _ _

theorem run_block : (block a n).run m = (List.range n).map fun i => m (a + i) := by
  induction n generalizing a with
  | zero => rfl
  | succ n ih =>
    rw [block, run_bind, run_bind, ih, List.range_succ_eq_map, List.map_cons, List.map_map]
    simp [Function.comp_def, Nat.add_assoc, Nat.add_comm 1]

theorem addresses_bind : (x >>= f).addresses m = x.addresses m ++ (f (x.run m)).addresses m := by
  induction x with
  | done x => rfl
  | read a next ih => exact congrArg (a :: ·) (ih (m a))

/-! ## Reads below a bound -/

/-- Every address that is read is below the bound. -/
def Within (m : Nat → β) (n : Nat) (x : Reads β α) : Prop := ∀ a ∈ x.addresses m, a < n

theorem Within.run_eq (h : x.Within m n) (hp : ∀ a < n, p a = m a) : x.run p = x.run m :=
  run_congr fun a ha => hp a (h a ha)

@[simp] theorem within_pure (y : α) : (pure y : Reads β α).Within m n := nofun

@[simp] theorem within_cell : (cell a : Reads β β).Within m n ↔ a < n := List.forall_mem_singleton

@[simp] theorem within_bind :
    (x >>= f).Within m n ↔ x.Within m n ∧ (f (x.run m)).Within m n := by
  rw [Within, addresses_bind, List.forall_mem_append]
  rfl

theorem within_ite {c : Prop} [Decidable c] {y z : Reads β α} :
    (if c then y else z).Within m n ↔ (c → y.Within m n) ∧ (¬ c → z.Within m n) := by
  by_cases h : c <;> simp [h]

theorem within_block {k : Nat} : (block a k : Reads β (List β)).Within m n ↔ k = 0 ∨ a + k ≤ n := by
  induction k generalizing a with
  | zero => simp [block]
  | succ k ih =>
    simp only [block, within_bind, within_cell, within_pure, ih, and_true]
    omega

end

end Reads

end Xmap.Lib
