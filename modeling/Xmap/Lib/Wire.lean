import Mathlib.Tactic

/-!
# Probes and replies

Replies come back over a network that loses, repeats, delays and reorders them, among packets of others. A receiver
that remembers no probe judges each packet by itself.
-/

namespace Xmap.Lib

/-- A packet on its way back, with the probe that it answers, if there is one. -/
structure Reply (P R : Type) where
  packet : R
  origin : Option P

structure Wire (P R : Type) where
  sent : List P
  coming : List (Reply P R)
  taken : List (Reply P R)

/-- What the network does: it answers probe `k`, brings a packet of others, or loses packet `k`. -/
inductive WireEvent (R : Type) where
  | answer (k : Nat) (r : R)
  | stray (r : R)
  | lose (k : Nat)

/-- How packets are judged: the host that one is accepted for. Of the probes, `genuine` ones are answered so that
`Counts` decides. -/
structure Judge (P R H : Type) where
  Answers : P → R → Prop
  Genuine : P → Prop
  Counts : P → Prop
  host : P → H
  verdict : R → Option H

section
variable {P R H : Type}

/-- An answer to a genuine probe is accepted when the probe counts, and for its host. -/
def Judge.Fair (J : Judge P R H) : Prop :=
  ∀ p r, J.Genuine p → J.Answers p r → ∀ x, J.verdict r = some x ↔ J.Counts p ∧ J.host p = x

namespace Wire

def empty : Wire P R := ⟨[], [], []⟩

def send (ps : List P) (w : Wire P R) : Wire P R := { w with sent := w.sent ++ ps }

def event (Answers : P → R → Prop) [∀ p r, Decidable (Answers p r)] (w : Wire P R) : WireEvent R → Option (Wire P R)
  | .answer k r =>
      match w.sent[k]? with
      | none => none
      | some p => if Answers p r then some { w with coming := w.coming ++ [⟨r, some p⟩] } else none
  | .stray r => some { w with coming := w.coming ++ [⟨r, none⟩] }
  | .lose k => some { w with coming := w.coming.eraseIdx k }

/-- Packets are taken. They stay on their way, so that they can come again. -/
def take (rs : List (Reply P R)) (w : Wire P R) : Wire P R := { w with taken := w.taken ++ rs }

end Wire

/-- A packet that is said to answer a probe does, and the probe was sent. -/
def Reply.Explained (J : Judge P R H) (sent : List P) (r : Reply P R) : Prop :=
  ∀ p, r.origin = some p → p ∈ sent ∧ J.Answers p r.packet

structure Wire.Explained (J : Judge P R H) (w : Wire P R) : Prop where
  genuine : ∀ p ∈ w.sent, J.Genuine p
  coming : ∀ r ∈ w.coming, r.Explained J w.sent
  taken : ∀ r ∈ w.taken, r.Explained J w.sent

variable {J : Judge P R H} {w v : Wire P R} {ps : List P} {rs : List (Reply P R)}

theorem Reply.Explained.append {sent : List P} {r : Reply P R} (h : r.Explained J sent) (ps : List P) :
    r.Explained J (sent ++ ps) := by
  intro p hp
  obtain ⟨hsent, hans⟩ := h p hp
  exact ⟨List.mem_append_left ps hsent, hans⟩

/-- The network neither sends nor takes. -/
theorem Wire.event_kept {Answers : P → R → Prop} [∀ p r, Decidable (Answers p r)] {e : WireEvent R}
    (he : w.event Answers e = some v) : v.sent = w.sent ∧ v.taken = w.taken := by
  cases e with
  | answer k r =>
    simp only [Wire.event] at he
    split at he
    · cases he
    · split at he
      · cases he
        exact ⟨rfl, rfl⟩
      · cases he
  | stray r =>
    cases he
    exact ⟨rfl, rfl⟩
  | lose k =>
    cases he
    exact ⟨rfl, rfl⟩

namespace Wire.Explained

theorem empty : (Wire.empty : Wire P R).Explained J := by
  constructor <;> simp [Wire.empty]

theorem send (h : w.Explained J) (hps : ∀ p ∈ ps, J.Genuine p) : (w.send ps).Explained J where
  genuine p hp := by
    rcases List.mem_append.mp hp with hp | hp
    · exact h.genuine p hp
    · exact hps p hp
  coming r hr := (h.coming r hr).append ps
  taken r hr := (h.taken r hr).append ps

theorem arrive {r : Reply P R} (h : w.Explained J) (hr : r.Explained J w.sent) :
    ({ w with coming := w.coming ++ [r] } : Wire P R).Explained J where
  genuine := h.genuine
  coming q hq := by
    rcases List.mem_append.mp hq with hq | hq
    · exact h.coming q hq
    · rwa [List.mem_singleton.mp hq]
  taken := h.taken

theorem event [∀ p r, Decidable (J.Answers p r)] {e : WireEvent R} (h : w.Explained J)
    (he : w.event J.Answers e = some v) : v.Explained J := by
  cases e with
  | answer k r =>
    simp only [Wire.event] at he
    split at he
    · cases he
    · next p hp =>
      split at he
      · next hans =>
        cases he
        apply h.arrive
        rintro _ ⟨⟩
        exact ⟨List.mem_of_getElem? hp, hans⟩
      · cases he
  | stray r =>
    cases he
    apply h.arrive
    rintro _ ⟨⟩
  | lose k =>
    cases he
    exact ⟨h.genuine, fun r hr => h.coming r (List.mem_of_mem_eraseIdx hr), h.taken⟩

theorem take (h : w.Explained J) (hrs : ∀ r ∈ rs, r ∈ w.coming) : (w.take rs).Explained J where
  genuine := h.genuine
  coming := h.coming
  taken r hr := by
    rcases List.mem_append.mp hr with hr | hr
    · exact h.taken r hr
    · exact h.coming r (hrs r hr)

/-- The hosts that packets were accepted for are those of the probes that count and of which an answer was taken, but
for packets of others. -/
theorem accepted_iff (h : w.Explained J) (hfair : J.Fair) (x : H) :
    (∃ r ∈ w.taken, J.verdict r.packet = some x) ↔
      (∃ p ∈ w.sent, J.host p = x ∧ J.Counts p ∧ ∃ r ∈ w.taken, r.origin = some p) ∨
        ∃ r ∈ w.taken, r.origin = none ∧ J.verdict r.packet = some x := by
  constructor
  · rintro ⟨r, hr, hx⟩
    cases ho : r.origin with
    | none => exact .inr ⟨r, hr, ho, hx⟩
    | some p =>
      obtain ⟨hsent, hans⟩ := h.taken r hr p ho
      obtain ⟨hcounts, hhost⟩ := (hfair p r.packet (h.genuine p hsent) hans x).mp hx
      exact .inl ⟨p, hsent, hhost, hcounts, r, hr, ho⟩
  · rintro (⟨p, hsent, hhost, hcounts, r, hr, ho⟩ | ⟨r, hr, -, hx⟩)
    · have hans := (h.taken r hr p ho).2
      exact ⟨r, hr, (hfair p r.packet (h.genuine p hsent) hans x).mpr ⟨hcounts, hhost⟩⟩
    · exact ⟨r, hr, hx⟩

end Wire.Explained

end

end Xmap.Lib
