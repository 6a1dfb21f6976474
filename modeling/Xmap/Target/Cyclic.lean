import Mathlib.Tactic

/-!
# Cyclic groups (`xm_cyclic`)

A scan walks the multiplicative group modulo a prime from a table. The generator is the known
primitive root to a random power coprime to the group's order. The random generator is a stream of
64-bit words that its seed determines.
-/

namespace Xmap.Target

/-- The words that an `xm_aesrand_t` still returns, from position `pos` of its stream on. -/
structure XmAesrand where
  stream : Nat → Fin (2 ^ 64)
  pos : Nat

def xmAesrandGetword (aes : XmAesrand) : Nat × XmAesrand :=
  ((aes.stream aes.pos).val, { aes with pos := aes.pos + 1 })

structure XmCyclicGroup where
  prime : Nat
  knownPrimroot : Nat
  primeFactors : List Nat
deriving DecidableEq, Repr

def groups : List XmCyclicGroup := [
  { prime := 257, knownPrimroot := 3, primeFactors := [2] },
  { prime := 65537, knownPrimroot := 3, primeFactors := [2] },
  { prime := 16777259, knownPrimroot := 2, primeFactors := [2, 23, 103, 3541] },
  { prime := 268435459, knownPrimroot := 2, primeFactors := [2, 3, 19, 87211] },
  { prime := 4294967311, knownPrimroot := 3, primeFactors := [2, 3, 5, 131, 364289] }]

/-- A pointer into the table of groups. -/
abbrev GroupPtr := { g : XmCyclicGroup // g ∈ groups }

structure XmCycle where
  group : GroupPtr
  generator : Nat
  order : Nat
  offset : Nat
  generator_lt : generator < 2 ^ 32
  order_eq : order = group.val.prime - 1
  offset_lt : offset < group.val.prime

/-- The loop of `check_coprime` over the prime factors; `none` is the division by a zero `check`. -/
def checkCoprime (check : Nat) : List Nat → Option Bool
  | [] => some true
  | q :: qs =>
      if check < q then
        if check = 0 then none
        else if q % check = 0 then some false
        else checkCoprime check qs
      else if q < check then
        if check % q = 0 then some false else checkCoprime check qs
      else some false

/-- `mpz_powm`. -/
def mpzPowm (base exp modulus : Nat) : Nat := base ^ exp % modulus

def xmIsomorphism (additiveElt : Nat) (multGroup : XmCyclicGroup) : Nat :=
  mpzPowm multGroup.knownPrimroot additiveElt multGroup.prime

/-- The search of `find_primroot` from a candidate on. The candidate is a `uint32_t`. -/
def findCandidate (group : XmCyclicGroup) : Nat → Nat → Option Nat
  | 0, _ => none
  | fuel + 1, candidate =>
      match checkCoprime candidate group.primeFactors with
      | none => none
      | some true => some candidate
      | some false =>
        let candidate := (candidate + 1) % 2 ^ 32
        findCandidate group fuel (if group.prime ≤ candidate then 1 else candidate)

def firstCandidate (group : XmCyclicGroup) (word : Nat) : Nat :=
  let candidate := word % 2 ^ 32 % group.prime
  if candidate = 0 then candidate + 1 else candidate

/-- `find_primroot`. More rounds than candidates are never needed, so `none` is the trap. -/
def findPrimroot (group : XmCyclicGroup) (aes : XmAesrand) : Option Nat × XmAesrand :=
  let r := xmAesrandGetword aes
  ((findCandidate group (2 ^ 33) (firstCandidate group r.1)).map fun c =>
    xmIsomorphism c group % 2 ^ 32, r.2)

/-- The first group with a prime above `minSize`; past the table when there is none. -/
def xmGetCyclicGroup (minSize : Nat) : Option GroupPtr :=
  groups.attach.find? fun g => minSize < g.val.prime

theorem findPrimroot_lt {group : XmCyclicGroup} {aes : XmAesrand} {g : Nat}
    (h : (findPrimroot group aes).1 = some g) : g < 2 ^ 32 := by
  obtain ⟨c, _, rfl⟩ := Option.map_eq_some_iff.mp h
  exact Nat.mod_lt _ (by decide)

theorem groups_prime_pos (g : GroupPtr) : 0 < g.val.prime := by
  have : ∀ g ∈ groups, 0 < g.prime := by decide
  exact this g.val g.property

def xmMakeCycle (group : GroupPtr) (aes : XmAesrand) : Option (XmCycle × XmAesrand) :=
  match h : (findPrimroot group.val aes).1 with
  | none => none
  | some generator =>
    let r := xmAesrandGetword (findPrimroot group.val aes).2
    some ({ group := group, generator := generator, order := group.val.prime - 1,
            offset := r.1 % 2 ^ 32 % group.val.prime,
            generator_lt := findPrimroot_lt h, order_eq := rfl,
            offset_lt := Nat.mod_lt _ (groups_prime_pos group) }, r.2)

end Xmap.Target
