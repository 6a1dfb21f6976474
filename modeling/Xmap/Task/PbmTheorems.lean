import Xmap.Target.Lines
import Xmap.Task.Pbm

/-!
# Theorems on the list of addresses

`xm_pbm_load_from_file` goes on after a line that `inet_aton` rejects: it adds what the variable holds and counts
the line.
-/

namespace Xmap.Task

open Xmap.Target

section
variable (inetAton : CStr → Option UInt32) (uninit : Nat → UInt32)

/-- The line up to its comment. -/
def cutComment (line : CStr) : CStr := (line.takeWhile (· != Char.ofNat 0)).takeWhile (· != '#')

/-- A round of the loop. `uninit` is what the bytes of `addr` hold when the round starts; `inet_aton` leaves them
as they are when it fails. -/
def loadLine (s : Pbm × UInt32) (line : CStr × Nat) : Pbm × UInt32 :=
  (xmPbmSet s.1 ((inetAton (cutComment line.1)).getD (uninit line.2)), s.2 + 1)

/-- `xm_pbm_load_from_file` on the content of the file. -/
def xmPbmLoadFromFile (b : Pbm) (content : CStr) : Pbm × UInt32 :=
  (fileLines content).zipIdx.foldl (loadLine inetAton uninit) (b, 0)

/-- The addresses of the lines that are accepted. -/
def listedAddrs (content : CStr) : List UInt32 := (lines content).filterMap fun line => inetAton (cutComment line)

/-- The bitmap holds the listed addresses, and their lines are counted. -/
structure LoadsListed (content : CStr) : Prop where
  check : ∀ x, xmPbmCheck (xmPbmLoadFromFile inetAton uninit xmPbmInit content).1 x = true ↔
    x ∈ listedAddrs inetAton content
  count : (xmPbmLoadFromFile inetAton uninit xmPbmInit content).2.toNat = (listedAddrs inetAton content).length

end

/-! ## The loop -/

section
variable {inetAton : CStr → Option UInt32} {uninit : Nat → UInt32} {content : CStr} {x : UInt32}

theorem foldl_loadLine (ls : List (CStr × Nat)) (s : Pbm × UInt32) :
    (xmPbmCheck (ls.foldl (loadLine inetAton uninit) s).1 x = true ↔
        (∃ l ∈ ls, (inetAton (cutComment l.1)).getD (uninit l.2) = x) ∨ xmPbmCheck s.1 x = true) ∧
      (ls.foldl (loadLine inetAton uninit) s).2 = s.2 + UInt32.ofNat ls.length := by
  induction ls generalizing s with
  | nil => simp
  | cons l ls ih =>
    obtain ⟨hcheck, hcount⟩ := ih (loadLine inetAton uninit s l)
    rw [List.foldl_cons, hcheck, hcount]
    constructor
    · rw [loadLine, xmPbmCheck_set, List.exists_mem_cons_iff, eq_comm (a := x)]
      exact or_assoc.symm.trans (or_congr_left or_comm)
    · rw [loadLine, List.length_cons, UInt32.ofNat_add, UInt32.add_assoc, UInt32.add_comm 1]
      rfl

theorem mem_listedAddrs : x ∈ listedAddrs inetAton content ↔
    ∃ l ∈ (lines content).zipIdx, inetAton (cutComment l.1) = some x := by
  have hfst : (lines content).zipIdx.map Prod.fst = lines content := List.zipIdx_map_fst 0 _
  rw [listedAddrs, List.mem_filterMap]
  constructor
  · rintro ⟨line, hline, hx⟩
    rw [← hfst] at hline
    obtain ⟨l, hl, rfl⟩ := List.mem_map.mp hline
    exact ⟨l, hl, hx⟩
  · rintro ⟨l, hl, hx⟩
    exact ⟨l.1, hfst ▸ List.mem_map_of_mem hl, hx⟩

/-- What the bitmap holds: the listed addresses, and what was left in the variable. -/
theorem xmPbmLoadFromFile_check (h : ∀ l ∈ lines content, l.length < 1000) :
    xmPbmCheck (xmPbmLoadFromFile inetAton uninit xmPbmInit content).1 x = true ↔
      x ∈ listedAddrs inetAton content ∨
        ∃ l ∈ (lines content).zipIdx, inetAton (cutComment l.1) = none ∧ uninit l.2 = x := by
  have hempty : ¬ xmPbmCheck xmPbmInit x = true := by simp [xmPbmCheck, xmPbmInit]
  have hadded : ∀ l : CStr × Nat, (inetAton (cutComment l.1)).getD (uninit l.2) = x ↔
      inetAton (cutComment l.1) = some x ∨ inetAton (cutComment l.1) = none ∧ uninit l.2 = x := fun l => by
    cases inetAton (cutComment l.1) <;> simp
  rw [xmPbmLoadFromFile, fileLines_eq_lines h, (foldl_loadLine _ _).1, or_iff_left hempty, mem_listedAddrs,
    ← exists_or]
  refine exists_congr fun l => ?_
  rw [hadded, and_or_left]

theorem xmPbmLoadFromFile_count (h : ∀ l ∈ lines content, l.length < 1000) :
    (xmPbmLoadFromFile inetAton uninit xmPbmInit content).2.toNat = (lines content).length % 2 ^ 32 := by
  rw [xmPbmLoadFromFile, fileLines_eq_lines h, (foldl_loadLine (x := 0) _ _).2, UInt32.zero_add, UInt32.toNat_ofNat',
    List.length_zipIdx]

/-- The bitmap and the count are those of the listed addresses exactly when the number of lines, as a word of 32
bits, is the number of accepted ones, and what was left in the variable at a rejected line is listed as well. -/
theorem xmPbmLoadFromFile_listed_iff (inetAton : CStr → Option UInt32) (uninit : Nat → UInt32) {content : CStr}
    (h : ∀ l ∈ lines content, l.length < 1000) :
    LoadsListed inetAton uninit content ↔
      (lines content).length % 2 ^ 32 = (listedAddrs inetAton content).length ∧
        ∀ l ∈ (lines content).zipIdx, inetAton (cutComment l.1) = none →
          uninit l.2 ∈ listedAddrs inetAton content := by
  constructor
  · rintro ⟨hcheck, hcount⟩
    rw [xmPbmLoadFromFile_count h] at hcount
    refine ⟨hcount, fun l hl hnone => ?_⟩
    exact (hcheck _).mp ((xmPbmLoadFromFile_check h).mpr (Or.inr ⟨l, hl, hnone, rfl⟩))
  · rintro ⟨hcount, hleft⟩
    refine ⟨fun x => ?_, (xmPbmLoadFromFile_count h).trans hcount⟩
    rw [xmPbmLoadFromFile_check h]
    refine or_iff_left_of_imp ?_
    rintro ⟨l, hl, hnone, rfl⟩
    exact hleft l hl hnone

/-- A file of fewer than 2^32 lines: every line has to be accepted. -/
theorem listedAddrs_length_iff (hlines : (lines content).length < 2 ^ 32) :
    (lines content).length % 2 ^ 32 = (listedAddrs inetAton content).length ↔
      ∀ l ∈ lines content, (inetAton (cutComment l)).isSome := by
  rw [Nat.mod_eq_of_lt hlines, listedAddrs, eq_comm]
  exact List.filterMap_length_eq_length

end

/-! ## Three lines, and a comment -/

/-- `inet_aton` on the texts below; it accepts a blank behind the address. -/
def atonTwo (s : CStr) : Option UInt32 :=
  if s = "0.0.0.1".toList then some 0x01000000
  else if s = "0.0.0.2\n".toList then some 0x02000000
  else none

/-- Three lines with two addresses are loaded and counted. -/
theorem xmPbmLoadFromFile_listed_iff_three :
    LoadsListed atonTwo (fun _ => 0) "0.0.0.1#a\n0.0.0.2\n0.0.0.1".toList :=
  (xmPbmLoadFromFile_listed_iff atonTwo (fun _ => 0) (by decide)).mpr ⟨by decide, by decide⟩

/-- A line with a comment alone is counted, and adds the address 0. -/
theorem xmPbmLoadFromFile_comment : ¬ LoadsListed atonTwo (fun _ => 0) "0.0.0.1#a\n#b".toList := by
  rintro ⟨-, hcount⟩
  rw [xmPbmLoadFromFile_count (by decide)] at hcount
  exact absurd hcount (by decide)

end Xmap.Task
