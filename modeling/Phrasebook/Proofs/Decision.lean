import Phrasebook.Proofs.Run

/-!
# Decisions

Whether a piece is taken is drawn with its own percentage, unless its group is named and was decided
before: then that decision holds, whatever percentage it was drawn with.

* `Pass.lookup_includes`: a decision was there before, or is the one just drawn;
* `Pass.decided_of_includes`: a piece at zero percent is taken only where its group was decided;
* `Store.Unmixed`: no named group stands both at zero percent and at another percentage. In such a
  store no piece at zero percent is ever taken (`excluded_left`).
-/

namespace Phrasebook

theorem Words.chance_zero (w : Words) : (w.chance 0).1 = false := by
  simp [chance, hits]

namespace Pass

theorem lookup_includes {m : Modifiers} {pass : Pass} {group : String} {b : Bool}
    (h : (pass.includes m).2.decisions.lookup group = some b) :
    pass.decisions.lookup group = some b ∨
      m.group = some group ∧ group ≠ "" ∧ pass.decisions.lookup group = none ∧
        (pass.includes m).1 = b := by
  unfold includes at h ⊢
  cases named : m.group with
  | none => exact .inl (by simpa [named] using h)
  | some own =>
    simp only [named, decide] at h ⊢
    split at h
    · exact .inl h
    · next nonempty =>
      rw [if_neg nonempty]
      cases before : pass.decisions.lookup own with
      | some decision => exact .inl (by simpa [before] using h)
      | none =>
        simp only [before, List.lookup_cons] at h ⊢
        split at h
        · next same =>
          obtain rfl : group = own := by simpa using same
          refine .inr ⟨rfl, by simpa using nonempty, before, by simpa using h⟩
        · exact .inl h

/-- A piece at zero percent is taken only where its group is named and was decided before. -/
theorem decided_of_includes {m : Modifiers} {pass : Pass} (excluded : m.inclusion = some 0)
    (taken : (pass.includes m).1 = true) :
    ∃ group, group ≠ "" ∧ m.group = some group ∧ pass.decisions.lookup group = some true := by
  cases named : m.group with
  | none => simp [Modifiers.inclusion, named] at excluded
  | some group =>
    have zero : m.percent.getD Modifiers.defaultPercent = 0 := by
      simpa [Modifiers.inclusion, named] using excluded
    simp only [includes, named, zero, decide] at taken
    split at taken
    · simp [draw, Words.chance_zero] at taken
    · next nonempty =>
      cases before : pass.decisions.lookup group with
      | some decision =>
        simp only [before] at taken
        exact ⟨group, by simpa using nonempty, rfl, by rw [before, taken]⟩
      | none => simp [before, draw, Words.chance_zero] at taken

end Pass

theorem Piece.isExcluded_iff {p : Piece} :
    p.isExcluded = true ↔ p.modifiers.inclusion = some 0 := by
  simp [isExcluded]

theorem Piece.mem_allModifiers_of_isExcluded {p : Piece} (excluded : p.isExcluded = true) :
    p.modifiers ∈ p.allModifiers := by
  cases p with
  | word text => cases excluded
  | group pieces value m => exact List.mem_cons_self
  | reference kind name m => exact List.mem_cons_self

namespace Store

/-- The modifiers that a run of a rule can meet. -/
def modifiersFor (s : Store) (r : Rule) : List Modifiers := r.allModifiers ++ s.allModifiers

/-- No named group stands both at zero percent and at another percentage, in a rule and a store. -/
def Unmixed (s : Store) (r : Rule) : Prop :=
  ∀ m ∈ s.modifiersFor r, ∀ m' ∈ s.modifiersFor r, ∀ group, group ≠ "" →
    m.group = some group → m'.group = some group → m.inclusion = some 0 → m'.inclusion = some 0

/-- Every group that was decided as there stands at no zero percent. -/
def Unrevived (s : Store) (r : Rule) (pass : Pass) : Prop :=
  ∀ group, group ≠ "" → pass.decisions.lookup group = some true →
    ∀ m ∈ s.modifiersFor r, m.group = some group → m.inclusion ≠ some 0

variable {s : Store} {r : Rule}

theorem unrevived_start (w : Words) : s.Unrevived r ⟨w, []⟩ := by
  intro group _ decided
  cases decided

theorem unrevived_includes (unmixed : s.Unmixed r) (m : Modifiers) (pass : Pass)
    (hm : m ∈ s.modifiersFor r) (h : s.Unrevived r pass) : s.Unrevived r (pass.includes m).2 := by
  intro group nonempty decided m' hm' named zero
  rcases Pass.lookup_includes decided with before | ⟨own, _, undecided, taken⟩
  · exact h group nonempty before m' hm' named zero
  · have excluded := unmixed m' hm' m hm group nonempty named own zero
    obtain ⟨group', _, own', before⟩ := Pass.decided_of_includes excluded taken
    obtain rfl : group = group' := by simpa [own] using own'
    rw [undecided] at before
    cases before

theorem stored_mem_modifiersFor : ∀ m ∈ s.allModifiers, m ∈ s.modifiersFor r :=
  fun _ hm => List.mem_append_right _ hm

/-- In a run of an unmixed rule a piece at zero percent is never taken. -/
theorem excluded_left (unmixed : s.Unmixed r) {w : Words} {trail t : Trail} {q : Piece}
    {there : Pass} (h : s.Happens trail r.pieces ⟨w, []⟩ (.reached t q there))
    (excluded : q.isExcluded = true) : (there.includes q.modifiers).1 = false := by
  obtain ⟨kept, known⟩ := happens_keeps (I := s.Unrevived r) (M := (· ∈ s.modifiersFor r))
    (unrevived_includes unmixed) (fun _ _ h => h) stored_mem_modifiersFor h
    (fun _ hm => List.mem_append_left _ hm) (unrevived_start w)
  have zero := Piece.isExcluded_iff.mp excluded
  cases taken : (there.includes q.modifiers).1 with
  | false => rfl
  | true =>
    obtain ⟨group, nonempty, named, decided⟩ := Pass.decided_of_includes zero taken
    have own := Piece.mem_allModifiers_of_isExcluded excluded
    exact absurd zero (kept group nonempty decided _ (known _ own) named)

end Store
end Phrasebook
