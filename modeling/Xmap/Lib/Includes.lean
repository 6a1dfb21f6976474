import Mathlib.Tactic

/-!
# Documents that include others

A document is read line by line; a line may include other documents. Read in place, these stand for the line. A
machine with a stack of documents and a stack of names reads a document that was named last first, and goes on with
the document that included it when no name is left.
-/

namespace Xmap.Lib.Includes

inductive Line (D F : Type) where
  | apply (d : D)
  | includes (fs : List F)

inductive Failure (F : Type) where
  | missing (f : F)
  | tooDeep

variable {D F : Type}

/-! ## In place -/

/-- Everything is there, and this is what the lines say. -/
inductive Expands (docs : F → Option (List (Line D F))) : List (Line D F) → List D → Prop where
  | nil : Expands docs [] []
  | apply {ls : List (Line D F)} {ds : List D} (d : D) (h : Expands docs ls ds) :
      Expands docs (.apply d :: ls) (d :: ds)
  | includesNil {ls : List (Line D F)} {ds : List D} (h : Expands docs ls ds) : Expands docs (.includes [] :: ls) ds
  | includesCons {f : F} {fs : List F} {l ls : List (Line D F)} {es ds : List D} (hf : docs f = some l)
      (he : Expands docs l es) (h : Expands docs (.includes fs :: ls) ds) :
      Expands docs (.includes (f :: fs) :: ls) (es ++ ds)

/-- What follows is read when there was no failure. -/
def andThen (r : List D × Option (Failure F)) (next : List D × Option (Failure F)) : List D × Option (Failure F) :=
  match r with
  | (ds, some e) => (ds, some e)
  | (ds, none) => (ds ++ next.1, next.2)

/-- The lines in place, with the levels that are left, up to a failure. -/
def inPlace (docs : F → Option (List (Line D F))) : Nat → List (Line D F) → List D × Option (Failure F)
  | _, [] => ([], none)
  | left, .apply d :: ls => (d :: (inPlace docs left ls).1, (inPlace docs left ls).2)
  | left, .includes [] :: ls => inPlace docs left ls
  | left, .includes (f :: fs) :: ls =>
    match docs f with
    | none => ([], some (.missing f))
    | some l =>
      match left with
      | 0 => ([], some .tooDeep)
      | left + 1 => andThen (inPlace docs left l) (inPlace docs (left + 1) (.includes fs :: ls))
termination_by left ls => (left, ls.length, match ls with | .includes fs :: _ => fs.length | _ => 0)

/-! ## The machine -/

structure Sys (D F : Type) where
  stack : List (List (Line D F))
  waiting : List F

/-- Names are put on the stack one after the other. -/
def pushAll (fs w : List F) : List F := fs.reverse ++ w

/-- The lines up to the next include. -/
def untilInclude : List (Line D F) → List D × Option (List F × List (Line D F))
  | [] => ([], none)
  | .apply d :: ls => (d :: (untilInclude ls).1, (untilInclude ls).2)
  | .includes fs :: ls => ([], some (fs, ls))

variable (docs : F → Option (List (Line D F))) (limit : Nat)

/-- The document that was named last is opened, if one waits. -/
def Sys.openTop (s : Sys D F) : Except (Failure F) (Sys D F) :=
  match s.waiting with
  | [] => if limit < s.stack.length then .error .tooDeep else .ok s
  | f :: w =>
    match docs f with
    | none => .error (.missing f)
    | some l => if limit < s.stack.length + 1 then .error .tooDeep else .ok ⟨l :: s.stack, w⟩

/-- The document on the top is read on. -/
def Sys.readTop : Sys D F → List D × Sys D F
  | ⟨[], w⟩ => ([], ⟨[], w⟩)
  | ⟨ls :: stack, w⟩ =>
    match untilInclude ls with
    | (ds, none) => (ds, ⟨stack, w⟩)
    | (ds, some (fs, rest)) => (ds, ⟨rest :: stack, pushAll fs w⟩)

/-- A run to its end, with what was read. -/
inductive Runs : Sys D F → List D → Option (Failure F) → Prop where
  | finished : Runs ⟨[], []⟩ [] none
  | failed {s : Sys D F} {e : Failure F} (h : s.openTop docs limit = .error e) : Runs s [] (some e)
  | round {s s' : Sys D F} {ds : List D} {res : Option (Failure F)} (hne : s'.stack ≠ [])
      (hopen : s.openTop docs limit = .ok s') (h : Runs s'.readTop.2 ds res) : Runs s (s'.readTop.1 ++ ds) res

theorem lines_lt (waiting lines : Nat) : Prod.Lex (· < ·) (· < ·) (0, lines) (waiting, lines + 1) := by
  cases waiting with
  | zero => exact .right _ (Nat.lt_succ_self _)
  | succ n => exact .left _ _ (Nat.succ_pos _)

/-- What the machine reads from an open document on, with the levels that are left and the names that wait. -/
def exec (docs : F → Option (List (Line D F))) : Nat → List (Line D F) → List F → List D × Option (Failure F)
  | _, [], [] => ([], none)
  | left, [], f :: w =>
    match docs f with
    | none => ([], some (.missing f))
    | some l => exec docs left l w
  | left, .apply d :: ls, w => (d :: (exec docs left ls w).1, (exec docs left ls w).2)
  | left, .includes fs :: ls, w =>
    match pushAll fs w with
    | [] => exec docs left ls []
    | f :: w' =>
      match docs f with
      | none => ([], some (.missing f))
      | some l =>
        match left with
        | 0 => ([], some .tooDeep)
        | left + 1 => andThen (exec docs left l w') (exec docs (left + 1) ls [])
termination_by left ls w => (left, w.length, ls.length)
decreasing_by
  · exact .right _ (.left _ _ (Nat.lt_succ_self _))
  · exact .right _ (.right _ (Nat.lt_succ_self _))
  · exact .right _ (lines_lt _ _)
  · exact .left _ _ (Nat.lt_succ_self _)
  · exact .right _ (lines_lt _ _)

section
variable {docs : F → Option (List (Line D F))} {limit left : Nat} {d : D} {f : F} {fs w : List F}
  {l ls ls' : List (Line D F)} {ds es : List D} {res : Option (Failure F)} {e : Failure F}

/-! ## Order -/

theorem Expands.append (h : Expands docs ls ds) (h' : Expands docs ls' es) : Expands docs (ls ++ ls') (ds ++ es) := by
  induction h with
  | nil => exact h'
  | apply d _ ih => exact .apply d ih
  | includesNil _ ih => exact .includesNil ih
  | includesCons hf he _ _ ih =>
    rw [List.append_assoc]
    exact .includesCons hf he ih

theorem expands_includes_cons (h : Expands docs [.includes (f :: fs)] ds) :
    ∃ l ds' es, docs f = some l ∧ Expands docs l ds' ∧ Expands docs [.includes fs] es ∧ ds = ds' ++ es := by
  cases h with
  | includesCons hf he h => exact ⟨_, _, _, hf, he, h, rfl⟩

theorem expands_includes_nil (h : Expands docs [.includes []] ds) : ds = [] := by
  cases h with
  | includesNil h =>
    cases h
    rfl

theorem expands_includes_append (h : Expands docs [.includes (fs ++ w)] ds) :
    ∃ ds' es, Expands docs [.includes fs] ds' ∧ Expands docs [.includes w] es ∧ ds = ds' ++ es := by
  induction fs generalizing ds with
  | nil => exact ⟨[], ds, .includesNil .nil, h, rfl⟩
  | cons f fs ih =>
    obtain ⟨l, df, rest, hf, hl, hrest, rfl⟩ := expands_includes_cons h
    obtain ⟨ds', es, hfs, hw, rfl⟩ := ih hrest
    exact ⟨df ++ ds', es, .includesCons hf hl hfs, hw, (List.append_assoc df ds' es).symm⟩

/-- The lines that an include stands for, in front of the others. -/
theorem Expands.includes (h : Expands docs [.includes fs] ds) (h' : Expands docs ls es) :
    Expands docs (.includes fs :: ls) (ds ++ es) := by
  induction fs generalizing ds with
  | nil =>
    rw [expands_includes_nil h]
    exact .includesNil h'
  | cons f fs ih =>
    obtain ⟨l, df, rest, hf, hl, hrest, rfl⟩ := expands_includes_cons h
    rw [List.append_assoc]
    exact .includesCons hf hl (ih hrest)

theorem expands_includes_reverse (h : Expands docs [.includes fs.reverse] ds) :
    ∃ es, Expands docs [.includes fs] es ∧ ds.Perm es := by
  induction fs generalizing ds with
  | nil => exact ⟨ds, h, .refl ds⟩
  | cons f fs ih =>
    rw [List.reverse_cons] at h
    obtain ⟨ds', last, hfs, hf, rfl⟩ := expands_includes_append h
    obtain ⟨es, hes, hperm⟩ := ih hfs
    obtain ⟨l, df, rest, hdf, hl, hrest, rfl⟩ := expands_includes_cons hf
    rw [expands_includes_nil hrest, List.append_nil]
    exact ⟨df ++ es, .includesCons hdf hl hes, (hperm.append_right df).trans List.perm_append_comm⟩

theorem andThen_eq_none {r next : List D × Option (Failure F)} (h : (andThen r next).2 = none) :
    r.2 = none ∧ next.2 = none ∧ (andThen r next).1 = r.1 ++ next.1 := by
  obtain ⟨ds, res⟩ := r
  cases res with
  | none => exact ⟨rfl, h, rfl⟩
  | some e => cases h

/-- Without a failure each line is read as often as in place. -/
theorem exec_perm (h : (exec docs left ls w).2 = none) :
    ∃ ds es, Expands docs ls ds ∧ Expands docs [.includes w] es ∧ (exec docs left ls w).1.Perm (ds ++ es) := by
  fun_induction exec docs left ls w with
  | case1 left => exact ⟨[], [], .nil, .includesNil .nil, .refl []⟩
  | case2 => cases h
  | case3 left f w l hf ih =>
    obtain ⟨ds, es, hl, hw, hperm⟩ := ih h
    exact ⟨[], ds ++ es, .nil, .includesCons hf hl hw, hperm⟩
  | case4 left d ls w ih =>
    obtain ⟨ds, es, hls, hw, hperm⟩ := ih h
    exact ⟨d :: ds, es, .apply d hls, hw, hperm.cons d⟩
  | case5 left fs ls w hnil ih =>
    obtain ⟨hfs, rfl⟩ := List.append_eq_nil_iff.mp hnil
    obtain rfl := List.reverse_eq_nil_iff.mp hfs
    obtain ⟨ds, es, hls, hw, hperm⟩ := ih h
    exact ⟨ds, es, .includesNil hls, hw, hperm⟩
  | case6 => cases h
  | case7 => cases h
  | case8 fs ls w f w' hnames l hf left ih₁ ih₂ =>
    obtain ⟨hfirst, hnext, hds⟩ := andThen_eq_none h
    obtain ⟨dl, dw', hl, hw', hperm₁⟩ := ih₁ hfirst
    obtain ⟨ds, es, hls, hnil, hperm₂⟩ := ih₂ hnext
    rw [expands_includes_nil hnil, List.append_nil] at hperm₂
    -- the document on the top takes what it likes of the names that wait, those of this include and earlier ones
    have hnames : fs.reverse ++ w = f :: w' := hnames
    have hall : Expands docs [.includes (fs.reverse ++ w)] (dl ++ dw') := hnames ▸ .includesCons hf hl hw'
    obtain ⟨a, b, hfs, hw, hab⟩ := expands_includes_append hall
    obtain ⟨a', ha', hperm⟩ := expands_includes_reverse hfs
    refine ⟨a' ++ ds, b, ha'.includes hls, hw, ?_⟩
    rw [hds]
    have hfirst : ((exec docs left l w').1 ++ (exec docs (left + 1) ls []).1).Perm ((a' ++ b) ++ ds) := by
      rw [hab] at hperm₁
      exact (hperm₁.trans (hperm.append_right b)).append hperm₂
    have hlast : ((a' ++ b) ++ ds).Perm ((a' ++ ds) ++ b) := by
      rw [List.append_assoc, List.append_assoc]
      exact List.perm_append_comm.append_left a'
    exact hfirst.trans hlast

/-- No line includes more than one document. -/
def Single (ls : List (Line D F)) : Prop := ∀ fs, .includes fs ∈ ls → fs.length ≤ 1

theorem Single.tail {x : Line D F} (h : Single (x :: ls)) : Single ls :=
  fun fs hfs => h fs (List.mem_cons_of_mem x hfs)

theorem Single.eq_nil (h : Single (.includes (f :: fs) :: ls)) : fs = [] :=
  List.length_eq_zero_iff.mp (Nat.le_zero.mp (Nat.le_of_succ_le_succ (h _ List.mem_cons_self)))

theorem exec_includes_nil : exec docs left (.includes [] :: ls) [] = exec docs left ls [] := by
  rw [exec]
  rfl

/-- Where no line includes more than one document, the machine reads in place. -/
theorem exec_single (hdocs : ∀ f l, docs f = some l → Single l) (h : Single ls) :
    exec docs left ls [] = inPlace docs left ls := by
  fun_induction inPlace docs left ls with
  | case1 => rw [exec]
  | case2 left d ls ih => rw [exec, ih h.tail]
  | case3 left ls ih => rw [exec_includes_nil, ih h.tail]
  | case4 left f fs ls hf =>
    obtain rfl := h.eq_nil
    simp [exec, pushAll, hf]
  | case5 f fs ls l hf =>
    obtain rfl := h.eq_nil
    simp [exec, pushAll, hf]
  | case6 f fs ls l hf left ih₁ ih₂ =>
    obtain rfl := h.eq_nil
    have hsingle : Single (.includes ([] : List F) :: ls) := by
      intro fs hfs
      rcases List.mem_cons.mp hfs with hnil | hmem
      · cases hnil
        exact Nat.zero_le 1
      · exact h fs (List.mem_cons_of_mem _ hmem)
    rw [← ih₁ (hdocs f l hf), ← ih₂ hsingle, exec_includes_nil, exec]
    simp [pushAll, hf]

theorem exec_apply (ds : List D) : exec docs left (ds.map .apply) [] = (ds, none) := by
  induction ds with
  | nil => rw [List.map_nil, exec]
  | cons d ds ih => rw [List.map_cons, exec, ih]

/-! ## Runs -/

section
variable {below : List (List (Line D F))}

theorem readTop_fst : (⟨ls :: below, w⟩ : Sys D F).readTop.1 = (untilInclude ls).1 := by
  rw [Sys.readTop]
  split <;> simp [*]

theorem readTop_of_none (h : (untilInclude ls).2 = none) : (⟨ls :: below, w⟩ : Sys D F).readTop.2 = ⟨below, w⟩ := by
  rw [Sys.readTop]
  split <;> simp_all

theorem readTop_of_some (h : (untilInclude ls).2 = some (fs, ls')) :
    (⟨ls :: below, w⟩ : Sys D F).readTop.2 = ⟨ls' :: below, pushAll fs w⟩ := by
  rw [Sys.readTop]
  split <;> simp_all

end

/-- A run from where a document is open and read next. -/
def RunsTop (docs : F → Option (List (Line D F))) (limit : Nat) (s : Sys D F) (r : List D × Option (Failure F)) :
    Prop :=
  ∃ ds, Runs docs limit s.readTop.2 ds r.2 ∧ r.1 = s.readTop.1 ++ ds

theorem RunsTop.runs {s s' : Sys D F} {r : List D × Option (Failure F)} (h : RunsTop docs limit s' r)
    (hopen : s.openTop docs limit = .ok s') (hne : s'.stack ≠ []) : Runs docs limit s r.1 r.2 := by
  obtain ⟨ds, hruns, hr⟩ := h
  rw [hr]
  exact .round hne hopen hruns

theorem readTop_apply {below : List (List (Line D F))} : (⟨(.apply d :: ls) :: below, w⟩ : Sys D F).readTop =
    (d :: (⟨ls :: below, w⟩ : Sys D F).readTop.1, (⟨ls :: below, w⟩ : Sys D F).readTop.2) := by
  simp only [Sys.readTop, untilInclude]
  obtain ⟨ds, next⟩ := untilInclude ls
  cases next <;> rfl

theorem andThen_none {a b : List D × Option (Failure F)} (h : a.2 = none) : (andThen a b).2 = b.2 := by
  obtain ⟨ds, ra⟩ := a
  cases h
  rfl

theorem andThen_nil (a : List D × Option (Failure F)) : andThen a ([], none) = a := by
  obtain ⟨ds, ra⟩ := a
  cases ra <;> simp [andThen]

/-- The document of a name. -/
theorem exec_name (hdocs : ∀ f l, docs f = some l → Single l) :
    exec docs left [] [f] = inPlace docs (left + 1) [.includes [f]] := by
  have hsingle : Single ([.includes [f]] : List (Line D F)) := by
    intro fs hfs
    obtain rfl := Line.includes.inj (List.mem_singleton.mp hfs)
    exact le_rfl
  rw [← exec_single hdocs hsingle, exec, exec]
  cases hf : docs f with
  | none => simp [pushAll, hf]
  | some l => simp [pushAll, hf, exec, andThen_nil]

theorem andThen_assoc (a b c : List D × Option (Failure F)) : andThen (andThen a b) c = andThen a (andThen b c) := by
  obtain ⟨ds, ra⟩ := a
  obtain ⟨es, rb⟩ := b
  cases ra <;> cases rb <;> simp [andThen]

theorem andThen_cons (d : D) (a b : List D × Option (Failure F)) :
    andThen (d :: a.1, a.2) b = (d :: (andThen a b).1, (andThen a b).2) := by
  obtain ⟨ds, ra⟩ := a
  cases ra <;> rfl

/-- The machine reads what `exec` says of the document on the top, and then what is below it. -/
theorem runsTop_exec {below : List (List (Line D F))} {r : List D × Option (Failure F)}
    (hlimit : below.length + 1 + left = limit)
    (h : (exec docs left ls w).2 = none → Runs docs limit ⟨below, []⟩ r.1 r.2) :
    RunsTop docs limit ⟨ls :: below, w⟩ (andThen (exec docs left ls w) r) := by
  fun_induction exec docs left ls w generalizing below r with
  | case1 left => exact ⟨r.1, h rfl, rfl⟩
  | case2 left f w hf => exact ⟨[], .failed (by simp [Sys.readTop, untilInclude, Sys.openTop, hf]), rfl⟩
  | case3 left f w l hf ih =>
    have hopen : Sys.openTop docs limit ⟨below, f :: w⟩ = .ok ⟨l :: below, w⟩ := by
      simp only [Sys.openTop, hf]
      rw [if_neg (by omega)]
    exact ⟨_, (ih hlimit h).runs hopen (List.cons_ne_nil _ _), rfl⟩
  | case4 left d ls w ih =>
    obtain ⟨ds, hruns, hds⟩ := ih hlimit h
    rw [andThen_cons]
    refine ⟨ds, ?_, ?_⟩
    · rw [readTop_apply]
      exact hruns
    · rw [readTop_apply, hds]
      rfl
  | case5 left fs ls w hnames ih =>
    have hopen : Sys.openTop docs limit ⟨ls :: below, pushAll fs w⟩ = .ok ⟨ls :: below, []⟩ := by
      rw [hnames, Sys.openTop, if_neg (by rw [List.length_cons]; omega)]
    exact ⟨_, (ih hlimit h).runs hopen (List.cons_ne_nil _ _), rfl⟩
  | case6 left fs ls w f w' hnames hf =>
    exact ⟨[], .failed (by simp [Sys.readTop, untilInclude, hnames, Sys.openTop, hf]), rfl⟩
  | case7 fs ls w f w' hnames l hf =>
    refine ⟨[], .failed ?_, rfl⟩
    simp only [Sys.readTop, untilInclude, hnames, Sys.openTop, hf]
    rw [if_pos (by rw [List.length_cons]; omega)]
  | case8 fs ls w f w' hnames l hf left ih₁ ih₂ =>
    have hopen : Sys.openTop docs limit ⟨ls :: below, pushAll fs w⟩ = .ok ⟨l :: ls :: below, w'⟩ := by
      rw [hnames]
      simp only [Sys.openTop, hf]
      rw [if_neg (by rw [List.length_cons]; omega)]
    have hback : Sys.openTop docs limit ⟨ls :: below, []⟩ = .ok ⟨ls :: below, []⟩ := by
      rw [Sys.openTop, if_neg (by rw [List.length_cons]; omega)]
    -- the lines behind the include are the part that is below while `f` is read
    rw [andThen_assoc]
    refine ⟨_, (ih₁ (by rw [List.length_cons]; omega) fun hfirst => ?_).runs hopen (List.cons_ne_nil _ _), rfl⟩
    refine (ih₂ hlimit fun hnext => h ?_).runs hback (List.cons_ne_nil _ _)
    rw [andThen_none hfirst]
    exact hnext

/-- A run from the names of the documents. -/
theorem runs_start (hlimit : left + 1 = limit) (w : List F) :
    Runs docs limit ⟨[], w⟩ (exec docs left [] w).1 (exec docs left [] w).2 := by
  have hbelow : ([] : List (List (Line D F))).length + 1 + left = limit := by
    rw [List.length_nil]
    omega
  have hfinished (_ : (exec docs left [] w).2 = none) :
      Runs docs limit ⟨[], []⟩ (([], none) : List D × Option (Failure F)).1 none := .finished
  obtain ⟨ds, hruns, hds⟩ := runsTop_exec hbelow hfinished
  rw [andThen_nil] at hruns hds
  rw [hds]
  exact hruns

end

end Xmap.Lib.Includes
