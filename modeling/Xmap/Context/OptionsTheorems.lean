import Xmap.Context.Options
import Xmap.Context.SourceIpTheorems

/-!
# Theorems on the numeric options

What the fields hold is what an option gives modulo the width of a field. The checks of a source port range
see only the fields, and nothing checks the lifetime and the number of senders.
-/

namespace Xmap.Context

open Xmap.Target (CStr strtol toInt32 decimalValue clampLong contextSenders strtol_digits
  strtol_minus_digits)

/-! ## What is stored -/

/-- The fields are what the options give. The senders may be dropped to one where the targets are too few
for them. -/
structure StoredAsGiven (env : Env) (args : Args) (c : Fields) : Prop where
  sourcePort : ∀ sourcePort ∈ args.sourcePort,
    (c.sourcePortFirst : Int) = sourcePort.first ∧ (c.sourcePortLast : Int) = sourcePort.last
  targetPort : ∀ v ∈ args.targetPort, (c.targetPort : Int) = v
  senders : ∀ v ∈ args.senderThreads, (c.senders : Int) = v ∨ c.senders = 1 ∧ env.maxTargets ≤ 2 * v
  shardNum : ∀ v ∈ args.shard, (c.shardNum : Int) = v
  totalShards : ∀ v ∈ args.shards, (c.totalShards : Int) = v
  probeTtl : ∀ v ∈ args.probeTtl, (c.probeTtl : Int) = v
  ports_le : c.sourcePortFirst ≤ c.sourcePortLast
  one_le_senders : 1 ≤ c.senders

/-- The check of a source port lets the option pass: the first dash is taken for that of a range, and a
range is checked as it is stored. -/
def SourcePort.Passes : SourcePort → Prop
  | single port => port.neg = true ∨ 0 ≤ argInt port.value ∧ argInt port.value ≤ 0xFFFF
  | range first last => first.neg = true ∨ toUint16 (argInt first.value) ≤ toUint16 (argInt last.value)

/-- The ports of a probe that takes them pass; a target port is required. -/
def PortsPass (portArgs : Bool) (args : Args) : Prop :=
  portArgs = true → (∀ sourcePort ∈ args.sourcePort, sourcePort.Passes) ∧
    ∃ v ∈ args.targetPort, 0 ≤ argInt v ∧ argInt v ≤ 0xFFFF

/-- Both shard options are given with a seed and pass, or neither is given. -/
def ShardsPass (args : Args) : Prop :=
  args.shard = none ∧ args.shards = none ∨
    args.seedGiven = true ∧ ∃ i ∈ args.shard, ∃ n ∈ args.shards,
      0 ≤ argInt i ∧ argInt i < argInt n ∧ argInt n ≤ 65535

/-- The steps that read no integer succeed, and the checks let the options pass. -/
structure Passes (env : Env) (portArgs : Bool) (args : Args) : Prop where
  probe : env.portArgs = some portArgs
  ifaceSend : env.ifaceSend = true ∧ 0 ≤ env.numRetries
  ports : PortsPass portArgs args
  linkFound : env.linkFound = true
  seed : args.seedGiven = true ∨ env.randomBytes = true
  aes : env.aes = true
  shards : ShardsPass args
  targetsFound : env.targetsFound = true
  interfaces : env.sendInterface = true ∧ env.recvInterface = true

/-- Each integer fits its field. -/
structure Fits (env : Env) (portArgs : Bool) (args : Args) : Prop where
  sourcePort : ∀ sourcePort ∈ args.sourcePort,
    if portArgs then
      0 ≤ sourcePort.first ∧ sourcePort.first ≤ 0xFFFF ∧ 0 ≤ sourcePort.last ∧ sourcePort.last ≤ 0xFFFF
    else sourcePort.first = 32768 ∧ sourcePort.last = 61000
  targetPort : ∀ v ∈ args.targetPort, if portArgs then 0 ≤ v ∧ v ≤ 0xFFFF else v = 0
  senders : ∀ v ∈ args.senderThreads, 1 ≤ v ∧ v ≤ 255 ∨
    env.maxTargets ≤ 2 * v ∧ (toUint8 (argInt v) = 1 ∨ env.maxTargets ≤ 2 * toUint8 (argInt v))
  shard : ∀ v ∈ args.shard, 0 ≤ v ∧ v ≤ 0xFFFF
  shards : ∀ v ∈ args.shards, 0 ≤ v ∧ v ≤ 0xFFFF
  probeTtl : ∀ v ∈ args.probeTtl, 0 ≤ v ∧ v ≤ 255

/-! ## Narrowing -/

section
variable {v : Int}

theorem argInt_of_range (h : -2 ^ 31 ≤ v) (h' : v < 2 ^ 31) : argInt v = v := by
  unfold argInt toInt32 clampLong
  omega

theorem toUint16_eq_iff : (toUint16 (argInt v) : Int) = v ↔ 0 ≤ v ∧ v ≤ 0xFFFF := by
  constructor
  · intro h
    unfold toUint16 at h
    omega
  · intro h
    rw [argInt_of_range (by omega) (by omega)]
    unfold toUint16
    omega

theorem toUint8_eq_iff : (toUint8 (argInt v) : Int) = v ↔ 0 ≤ v ∧ v ≤ 255 := by
  constructor
  · intro h
    unfold toUint8 at h
    omega
  · intro h
    rw [argInt_of_range (by omega) (by omega)]
    unfold toUint8
    omega

theorem enforceRange_bind_eq_some {α : Type} {min max : Int} {f : Unit → Option α} {r : α} :
    (enforceRange v min max).bind f = some r ↔ (min ≤ v ∧ v ≤ max) ∧ f () = some r := by
  rw [enforceRange]
  split
  · exact iff_of_false (Option.some_ne_none r).symm fun h => by omega
  · exact ⟨fun h => ⟨by omega, h⟩, And.right⟩

/-- A field of 16 bits passes every check of its range. -/
theorem enforceRange_toUint16 (v : Int) : enforceRange (toUint16 v) 0 0xFFFF = some () := by
  rw [enforceRange, if_neg]
  unfold toUint16
  omega

end

/-! ## Numerals -/

namespace Numeral

variable (n : Numeral)

theorem dash_notMem_digits : '-' ∉ n.digits := fun h => absurd (n.digits_isDigit _ h) (by decide)

theorem atoi_digits (rest : CStr) (hrest : rest.takeWhile Char.isDigit = []) :
    atoi (n.digits ++ rest) = argInt (decimalValue n.digits) := by
  rw [atoi, strtol_digits n.digits_ne n.digits_isDigit hrest, argInt]

theorem atoi_text : atoi n.text = argInt n.value := by
  have hdigits := n.atoi_digits [] rfl
  have hminus : (strtol ('-' :: (n.digits ++ []))).value = clampLong (-(decimalValue n.digits : Int)) :=
    strtol_minus_digits n.digits_isDigit rfl
  rw [List.append_nil] at hdigits hminus
  rw [text, value]
  cases n.neg with
  | false => exact hdigits
  | true =>
    rw [if_pos rfl, if_pos rfl, atoi, hminus]
    rfl

theorem value_neg (h : n.neg = true) : n.value < 0 := by
  have hpos := n.neg_pos h
  rw [value, if_pos h]
  omega

end Numeral

/-! ## Source ports -/

namespace SourcePort

/-- What is stored for a source port that passes. -/
def stored : SourcePort → Nat × Nat
  | single port =>
    if port.neg then (0, toUint16 (argInt (decimalValue port.digits)))
    else (toUint16 (argInt port.value), toUint16 (argInt port.value))
  | range first last =>
    if first.neg then (0, toUint16 (argInt (decimalValue first.digits)))
    else (toUint16 (argInt first.value), toUint16 (argInt last.value))

end SourcePort

theorem setSourcePort_range {arg before after : CStr} (h : cut '-' arg = (before, some after)) :
    setSourcePort arg =
      if toUint16 (atoi after) < toUint16 (atoi before) then none
      else some (toUint16 (atoi before), toUint16 (atoi after)) := by
  rw [setSourcePort, h]
  simp only [enforceRange_toUint16]
  rfl

/-- A number behind a dash, up to the end or the next dash, is the end of a range from 0. -/
theorem setSourcePort_dash (n : Numeral) (rest : CStr) (hrest : rest.takeWhile Char.isDigit = []) :
    setSourcePort ('-' :: (n.digits ++ rest)) = some (0, toUint16 (argInt (decimalValue n.digits))) := by
  have hcut : cut '-' ('-' :: (n.digits ++ rest)) = ([], some (n.digits ++ rest)) := rfl
  rw [setSourcePort_range hcut, n.atoi_digits rest hrest]
  exact if_neg (Nat.not_lt_zero _)

theorem setSourcePort_single {arg : CStr} (h : '-' ∉ arg) (r : Nat × Nat) :
    setSourcePort arg = some r ↔
      (0 ≤ atoi arg ∧ atoi arg ≤ 0xFFFF) ∧ r = (toUint16 (atoi arg), toUint16 (atoi arg)) := by
  rw [setSourcePort, cut_of_not_mem h]
  exact enforceRange_bind_eq_some.trans (and_congr_right fun _ => Option.some_inj.trans eq_comm)

theorem setSourcePort_text (sourcePort : SourcePort) (r : Nat × Nat) :
    setSourcePort sourcePort.text = some r ↔ sourcePort.Passes ∧ r = sourcePort.stored := by
  cases sourcePort with
  | single port =>
    cases hneg : port.neg with
    | true =>
      have hset := setSourcePort_dash port [] rfl
      rw [List.append_nil] at hset
      rw [SourcePort.text, Numeral.text, if_pos hneg, hset, SourcePort.stored, if_pos hneg, Option.some_inj,
        SourcePort.Passes, hneg, eq_comm]
      exact ⟨fun h => ⟨Or.inl rfl, h⟩, And.right⟩
    | false =>
      have htext : port.text = port.digits := if_neg (hneg ▸ Bool.false_ne_true)
      have hdash : '-' ∉ port.text := htext ▸ port.dash_notMem_digits
      rw [SourcePort.text, setSourcePort_single hdash, SourcePort.stored, hneg, port.atoi_text,
        SourcePort.Passes, hneg]
      simp only [Bool.false_eq_true, false_or, if_false]
  | range first last =>
    cases hneg : first.neg with
    | true =>
      have htext : (SourcePort.range first last).text = '-' :: (first.digits ++ '-' :: last.text) := by
        rw [SourcePort.text, Numeral.text, if_pos hneg]
        rfl
      rw [htext, setSourcePort_dash first _ rfl, SourcePort.stored, if_pos hneg, Option.some_inj,
        SourcePort.Passes, hneg, eq_comm]
      exact ⟨fun h => ⟨Or.inl rfl, h⟩, And.right⟩
    | false =>
      have htext : first.text = first.digits := if_neg (hneg ▸ Bool.false_ne_true)
      have hcut := cut_append (htext ▸ first.dash_notMem_digits) last.text
      rw [SourcePort.text, setSourcePort_range hcut, SourcePort.stored, hneg, first.atoi_text, last.atoi_text,
        SourcePort.Passes, hneg]
      simp only [Bool.false_eq_true, false_or, if_false]
      split
      · exact iff_of_false (Option.some_ne_none r).symm fun h => by omega
      · rw [Option.some_inj, eq_comm]
        exact ⟨fun h => ⟨by omega, h⟩, And.right⟩

/-! ## All options -/

section
variable {env : Env} {args : Args} {c : Fields}

def storedPorts (portArgs : Bool) (args : Args) : Nat × Nat × Nat :=
  if portArgs then
    let sourcePort := args.sourcePort.elim (32768, 61000) SourcePort.stored
    (sourcePort.1, sourcePort.2, args.targetPort.elim 0 fun v => toUint16 (argInt v))
  else (32768, 61000, 0)

theorem setPorts_eq_some (portArgs : Bool) (args : Args) (r : Nat × Nat × Nat) :
    setPorts portArgs args = some r ↔
      PortsPass portArgs args ∧ r = storedPorts portArgs args := by
  rw [PortsPass]
  cases portArgs with
  | false =>
    rw [setPorts, storedPorts, if_neg Bool.false_ne_true, if_neg Bool.false_ne_true, Option.some_inj, eq_comm]
    exact ⟨fun h => ⟨fun h' => absurd h' Bool.false_ne_true, h⟩, And.right⟩
  | true =>
    have hsource (p : Nat × Nat) :
        args.sourcePort.elim (some (32768, 61000)) (fun v => setSourcePort v.text) = some p ↔
          (∀ sourcePort ∈ args.sourcePort, sourcePort.Passes) ∧
            p = args.sourcePort.elim (32768, 61000) SourcePort.stored := by
      cases args.sourcePort with
      | none => simp [eq_comm]
      | some sourcePort => simpa using setSourcePort_text sourcePort p
    rw [setPorts, if_pos rfl, storedPorts, if_pos rfl]
    cases args.targetPort with
    | none => simp
    | some v =>
      simp only [Option.bind_eq_bind, Option.bind_some, Option.elim_some, Option.mem_def, Option.some.injEq,
        exists_eq_left', forall_const]
      rw [Option.bind_eq_some_iff]
      constructor
      · rintro ⟨p, hp, hrest⟩
        obtain ⟨hpass, rfl⟩ := (hsource p).mp hp
        obtain ⟨hrange, hr⟩ := enforceRange_bind_eq_some.mp hrest
        exact ⟨⟨hpass, hrange⟩, (Option.some.inj hr).symm⟩
      · rintro ⟨⟨hpass, hrange⟩, rfl⟩
        exact ⟨_, (hsource _).mpr ⟨hpass, rfl⟩, enforceRange_bind_eq_some.mpr ⟨hrange, rfl⟩⟩

/-- Two checked fields of 16 bits, the first of which is to be the smaller one. -/
theorem enforceRange_shards {i n : Int} (r : Nat × Nat) :
    ((enforceRange i 0 65534).bind fun _ => (enforceRange n 1 65535).bind fun _ =>
        if toUint16 n ≤ toUint16 i then none else some (toUint16 i, toUint16 n)) = some r ↔
      (0 ≤ i ∧ i < n ∧ n ≤ 65535) ∧ r = (toUint16 i, toUint16 n) := by
  rw [enforceRange_bind_eq_some, enforceRange_bind_eq_some]
  have hlt (hi : 0 ≤ i ∧ i ≤ 65534) (hn : 1 ≤ n ∧ n ≤ 65535) : toUint16 n ≤ toUint16 i ↔ n ≤ i := by
    unfold toUint16
    omega
  constructor
  · rintro ⟨hi, hn, h⟩
    have hle := hlt hi hn
    split at h
    · exact absurd h.symm (Option.some_ne_none r)
    · exact ⟨by omega, (Option.some.inj h).symm⟩
  · rintro ⟨h, rfl⟩
    have hi : 0 ≤ i ∧ i ≤ 65534 := by omega
    have hn : 1 ≤ n ∧ n ≤ 65535 := by omega
    exact ⟨hi, hn, if_neg (by rw [hlt hi hn]; omega)⟩

def storedShards (args : Args) : Nat × Nat :=
  (args.shard.elim 0 fun v => toUint16 (argInt v), args.shards.elim 1 fun v => toUint16 (argInt v))

theorem setShards_eq_some (args : Args) (r : Nat × Nat) :
    setShards args = some r ↔ ShardsPass args ∧ r = storedShards args := by
  rw [setShards, ShardsPass, storedShards]
  cases args.shard with
  | none =>
    cases args.shards with
    | none =>
      refine Iff.trans (b := some (0, 1) = some r) Iff.rfl ?_
      rw [Option.some_inj, eq_comm]
      exact ⟨fun h => ⟨Or.inl ⟨rfl, rfl⟩, h⟩, And.right⟩
    | some n => simp
  | some i =>
    cases args.shards with
    | none => simp
    | some n =>
      cases args.seedGiven with
      | false => simp
      | true =>
        have hboth := enforceRange_shards (i := argInt i) (n := argInt n) r
        simp only [Option.isSome_some, or_self, true_and, Bool.true_eq_false, if_false, ne_eq,
          not_true_eq_false, Option.elim_some, reduceCtorEq, Option.mem_def, Option.some.injEq,
          exists_eq_left', and_self, false_or]
        exact hboth

/-- What is stored where the options pass. -/
def storedFields (env : Env) (portArgs : Bool) (args : Args) : Fields where
  sourcePortFirst := (storedPorts portArgs args).1
  sourcePortLast := (storedPorts portArgs args).2.1
  targetPort := (storedPorts portArgs args).2.2
  senders := contextSenders (args.senderThreads.map argInt) env.maxTargets
  shardNum := (storedShards args).1
  totalShards := (storedShards args).2
  probeTtl := args.probeTtl.elim 255 fun v => toUint8 (argInt v)

theorem guard_bind_eq_some {α : Type} {p : Prop} [Decidable p] {f : Unit → Option α} {r : α} :
    ((guard p : Option Unit).bind f) = some r ↔ p ∧ f () = some r := by
  by_cases h : p
  · rw [guard, if_pos h]
    exact ⟨fun hf => ⟨h, hf⟩, And.right⟩
  · rw [guard, if_neg h]
    exact iff_of_false (Option.some_ne_none r).symm fun h' => h h'.1

/-- `_context_set` succeeds exactly where the options pass, and stores them narrowed. -/
theorem contextSet_eq_some :
    contextSet env args = some c ↔
      ∃ portArgs, Passes env portArgs args ∧ c = storedFields env portArgs args := by
  rw [contextSet]
  constructor
  · intro h
    obtain ⟨portArgs, hprobe, h⟩ := Option.bind_eq_some_iff.mp h
    obtain ⟨hiface, h⟩ := guard_bind_eq_some.mp h
    obtain ⟨ports, hports, h⟩ := Option.bind_eq_some_iff.mp h
    obtain ⟨hlink, h⟩ := guard_bind_eq_some.mp h
    obtain ⟨hseed, h⟩ := guard_bind_eq_some.mp h
    obtain ⟨haes, h⟩ := guard_bind_eq_some.mp h
    obtain ⟨shards, hshards, h⟩ := Option.bind_eq_some_iff.mp h
    obtain ⟨htargets, h⟩ := guard_bind_eq_some.mp h
    obtain ⟨hif, h⟩ := guard_bind_eq_some.mp h
    obtain ⟨hportsPass, rfl⟩ := (setPorts_eq_some portArgs args ports).mp hports
    obtain ⟨hshardsPass, rfl⟩ := (setShards_eq_some args shards).mp hshards
    exact ⟨portArgs, ⟨hprobe, hiface, hportsPass, hlink, hseed, haes, hshardsPass, htargets, hif⟩,
      (Option.some.inj h).symm⟩
  · rintro ⟨portArgs, h, rfl⟩
    refine Option.bind_eq_some_iff.mpr ⟨portArgs, h.probe, ?_⟩
    refine guard_bind_eq_some.mpr ⟨h.ifaceSend, ?_⟩
    refine Option.bind_eq_some_iff.mpr ⟨_, (setPorts_eq_some portArgs args _).mpr ⟨h.ports, rfl⟩, ?_⟩
    refine guard_bind_eq_some.mpr ⟨h.linkFound, ?_⟩
    refine guard_bind_eq_some.mpr ⟨h.seed, ?_⟩
    refine guard_bind_eq_some.mpr ⟨h.aes, ?_⟩
    refine Option.bind_eq_some_iff.mpr ⟨_, (setShards_eq_some args _).mpr ⟨h.shards, rfl⟩, ?_⟩
    refine guard_bind_eq_some.mpr ⟨h.targetsFound, ?_⟩
    exact guard_bind_eq_some.mpr ⟨h.interfaces, rfl⟩

/-! ## When the options are stored as they are given -/

theorem SourcePort.stored_eq_iff (sourcePort : SourcePort) :
    ((sourcePort.stored.1 : Int) = sourcePort.first ∧ (sourcePort.stored.2 : Int) = sourcePort.last) ↔
      0 ≤ sourcePort.first ∧ sourcePort.first ≤ 0xFFFF ∧ 0 ≤ sourcePort.last ∧ sourcePort.last ≤ 0xFFFF := by
  cases sourcePort with
  | single port =>
    rw [SourcePort.stored, SourcePort.first, SourcePort.last]
    split
    · next hneg =>
      have hvalue := port.value_neg hneg
      exact iff_of_false (fun h => by omega) fun h => by omega
    · rw [toUint16_eq_iff, and_assoc]
  | range first last =>
    rw [SourcePort.stored, SourcePort.first, SourcePort.last]
    split
    · next hneg =>
      have hvalue := first.value_neg hneg
      exact iff_of_false (fun h => by omega) fun h => by omega
    · rw [toUint16_eq_iff, toUint16_eq_iff, and_assoc]

theorem SourcePort.stored_le {sourcePort : SourcePort} (h : sourcePort.Passes) :
    sourcePort.stored.1 ≤ sourcePort.stored.2 := by
  cases sourcePort with
  | single port =>
    rw [SourcePort.stored]
    split
    · exact Nat.zero_le _
    · exact le_rfl
  | range first last =>
    rw [SourcePort.stored]
    split
    · exact Nat.zero_le _
    · next hneg => exact h.resolve_left hneg

theorem contextSenders_eq_iff (v : Int) (maxTargets : Nat) :
    (((contextSenders (some (argInt v)) maxTargets : Int) = v ∨
        contextSenders (some (argInt v)) maxTargets = 1 ∧ maxTargets ≤ 2 * v) ∧
      1 ≤ contextSenders (some (argInt v)) maxTargets) ↔
      1 ≤ v ∧ v ≤ 255 ∨
        maxTargets ≤ 2 * v ∧ (toUint8 (argInt v) = 1 ∨ maxTargets ≤ 2 * toUint8 (argInt v)) := by
  have hlow : (toUint8 (argInt v) : Int) = v ↔ 0 ≤ v ∧ v ≤ 255 := toUint8_eq_iff
  have hsenders : contextSenders (some (argInt v)) maxTargets =
      if maxTargets ≤ 2 * toUint8 (argInt v) then 1 else toUint8 (argInt v) := rfl
  rw [hsenders]
  generalize toUint8 (argInt v) = low at hlow ⊢
  split <;> omega

theorem storedPorts_le {portArgs : Bool} (h : PortsPass portArgs args) :
    (storedPorts portArgs args).1 ≤ (storedPorts portArgs args).2.1 := by
  have hdefault : 32768 ≤ 61000 := by decide
  rw [storedPorts]
  split
  · next hport =>
    cases hsource : args.sourcePort with
    | none => exact hdefault
    | some sourcePort => exact SourcePort.stored_le ((h hport).1 sourcePort hsource)
  · exact hdefault

/-- A probe without ports keeps the defaults, whatever is given. -/
theorem storedPorts_sourcePort {portArgs : Bool} {sourcePort : SourcePort} (h : args.sourcePort = some sourcePort) :
    ((storedPorts portArgs args).1 : Int) = sourcePort.first ∧
        ((storedPorts portArgs args).2.1 : Int) = sourcePort.last ↔
      if portArgs then
        0 ≤ sourcePort.first ∧ sourcePort.first ≤ 0xFFFF ∧ 0 ≤ sourcePort.last ∧ sourcePort.last ≤ 0xFFFF
      else sourcePort.first = 32768 ∧ sourcePort.last = 61000 := by
  rw [storedPorts, h]
  cases portArgs with
  | false => exact and_congr eq_comm eq_comm
  | true => exact sourcePort.stored_eq_iff

theorem storedPorts_targetPort {portArgs : Bool} {v : Int} (h : args.targetPort = some v) :
    ((storedPorts portArgs args).2.2 : Int) = v ↔ if portArgs then 0 ≤ v ∧ v ≤ 0xFFFF else v = 0 := by
  rw [storedPorts, h]
  cases portArgs with
  | false => exact eq_comm
  | true => exact toUint16_eq_iff

theorem storedFields_storedAsGiven_iff {portArgs : Bool} (h : Passes env portArgs args) :
    StoredAsGiven env args (storedFields env portArgs args) ↔ Fits env portArgs args := by
  have hshard (v : Int) (hv : args.shard = some v) :
      ((storedShards args).1 : Int) = v ↔ 0 ≤ v ∧ v ≤ 0xFFFF := by
    rw [storedShards, hv]
    exact toUint16_eq_iff
  have hshards (v : Int) (hv : args.shards = some v) :
      ((storedShards args).2 : Int) = v ↔ 0 ≤ v ∧ v ≤ 0xFFFF := by
    rw [storedShards, hv]
    exact toUint16_eq_iff
  have httl (v : Int) (hv : args.probeTtl = some v) :
      ((storedFields env portArgs args).probeTtl : Int) = v ↔ 0 ≤ v ∧ v ≤ 255 := by
    rw [storedFields, hv]
    exact toUint8_eq_iff
  have hsenders (v : Int) (hv : args.senderThreads = some v) :
      (storedFields env portArgs args).senders = contextSenders (some (argInt v)) env.maxTargets := by
    rw [storedFields, hv]
    rfl
  constructor
  · intro hstored
    exact {
      sourcePort := fun sourcePort hs => (storedPorts_sourcePort hs).mp (hstored.sourcePort sourcePort hs)
      targetPort := fun v hv => (storedPorts_targetPort hv).mp (hstored.targetPort v hv)
      senders := fun v hv => (contextSenders_eq_iff v env.maxTargets).mp
        (hsenders v hv ▸ ⟨hstored.senders v hv, hstored.one_le_senders⟩)
      shard := fun v hv => (hshard v hv).mp (hstored.shardNum v hv)
      shards := fun v hv => (hshards v hv).mp (hstored.totalShards v hv)
      probeTtl := fun v hv => (httl v hv).mp (hstored.probeTtl v hv) }
  · intro hfits
    have hone : 1 ≤ (storedFields env portArgs args).senders := by
      cases hv : args.senderThreads with
      | none =>
        have hdefault : (storedFields env portArgs args).senders =
            if env.maxTargets ≤ 2 * 1 then 1 else 1 := by
          rw [storedFields, hv]
          rfl
        rw [hdefault, ite_self]
      | some v =>
        rw [hsenders v hv]
        exact ((contextSenders_eq_iff v env.maxTargets).mpr (hfits.senders v hv)).2
    exact {
      sourcePort := fun sourcePort hs => (storedPorts_sourcePort hs).mpr (hfits.sourcePort sourcePort hs)
      targetPort := fun v hv => (storedPorts_targetPort hv).mpr (hfits.targetPort v hv)
      senders := fun v hv =>
        hsenders v hv ▸ ((contextSenders_eq_iff v env.maxTargets).mpr (hfits.senders v hv)).1
      shardNum := fun v hv => (hshard v hv).mpr (hfits.shard v hv)
      totalShards := fun v hv => (hshards v hv).mpr (hfits.shards v hv)
      probeTtl := fun v hv => (httl v hv).mpr (hfits.probeTtl v hv)
      ports_le := storedPorts_le h.ports
      one_le_senders := hone }

end

/-- Each option is refused or stored as it is given exactly when the options do not pass or each fits its
field. -/
theorem contextSet_storedAsGiven_iff (env : Env) (args : Args) :
    (∀ c, contextSet env args = some c → StoredAsGiven env args c) ↔
      ∀ portArgs, Passes env portArgs args → Fits env portArgs args := by
  constructor
  · intro h portArgs hpass
    exact (storedFields_storedAsGiven_iff hpass).mp (h _ (contextSet_eq_some.mpr ⟨portArgs, hpass, rfl⟩))
  · intro h c hc
    obtain ⟨portArgs, hpass, rfl⟩ := contextSet_eq_some.mp hc
    exact (storedFields_storedAsGiven_iff hpass).mpr (h portArgs hpass)

/-- A host with its addresses, and a probe of TCP ports. -/
def tcpEnv : Env where
  portArgs := some true
  ifaceSend := true
  numRetries := 0
  sourceIp := true
  gwMac := true
  hwMac := true
  randomBytes := true
  aes := true
  bandwidth := true
  wblist := true
  allowed := 2 ^ 24
  maxTargets := 0xFFFFFFFF
  sendInterface := true
  recvInterface := true
  maxTargets_lt := by decide

/-- 256 senders are none. -/
theorem contextSet_senders_wrapped :
    ¬ ∀ env args c, contextSet env args = some c → StoredAsGiven env args c := by
  intro h
  have hstored := h tcpEnv
    { sourcePort := none, targetPort := some 80, senderThreads := some 256, shard := none, shards := none,
      probeTtl := none, seedGiven := false }
    { sourcePortFirst := 32768, sourcePortLast := 61000, targetPort := 80, senders := 0, shardNum := 0,
      totalShards := 1, probeTtl := 255 } (by decide +kernel)
  exact absurd hstored.one_le_senders (by decide)

end Xmap.Context
