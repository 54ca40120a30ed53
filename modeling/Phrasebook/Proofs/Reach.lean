import Mathlib.Logic.Relation
import Phrasebook.Proofs.Run
import Phrasebook.Store.Check

/-!
# Where references lead

The targets that pieces refer to, and those that the rules of these targets refer to in turn. Which
pieces are looked into is left open: all of them, or those only that counting looks into.

* `Piece.Refers`: pieces refer to a target, at any depth of groups;
* `Store.Leads`, `Store.Reaches`: one step from a target to the next, and any number of them;
* `Store.Resolves`, `resolves_iff`: what a target has to find in the store;
* `Store.Closed`, `dangling_eq_nil_iff`: the stores whose references all resolve, and that the check
  tells them from others. From a rule of such a store only targets are reached that resolve.
-/

namespace Phrasebook

open Relation

namespace Piece

/-- Among the pieces, or in a group among them, there is a reference to the target. Pieces that do
not satisfy `enters` are passed over, and so is what they hold. -/
inductive Refers (enters : Piece → Prop) : List Piece → Target → Prop
  | reference {kind name m rest} (there : enters (.reference kind name m)) :
      Refers enters (.reference kind name m :: rest) ⟨kind, name, m.variation⟩
  | inGroup {pieces value m rest t} (there : enters (.group pieces value m))
      (inside : Refers enters pieces t) : Refers enters (.group pieces value m :: rest) t
  | later {p rest t} (after : Refers enters rest t) : Refers enters (p :: rest) t

section
variable {enters : Piece → Prop} {t : Target} {m : Modifiers}

theorem refers_cons {p : Piece} {rest : List Piece} :
    Refers enters (p :: rest) t ↔ Refers enters [p] t ∨ Refers enters rest t := by
  constructor
  · intro h
    cases h with
    | reference there => exact .inl (.reference there)
    | inGroup there inside => exact .inl (.inGroup there inside)
    | later after => exact .inr after
  · rintro (h | h)
    · cases h with
      | reference there => exact .reference there
      | inGroup there inside => exact .inGroup there inside
      | later after => cases after
    · exact .later h

theorem refers_group {pieces : List Piece} {value : Option String} :
    Refers enters [.group pieces value m] t ↔
      enters (.group pieces value m) ∧ Refers enters pieces t := by
  constructor
  · intro h
    cases h with
    | inGroup there inside => exact ⟨there, inside⟩
    | later after => cases after
  · rintro ⟨there, inside⟩
    exact .inGroup there inside

theorem refers_reference {kind : Kind} {name : String} :
    Refers enters [.reference kind name m] t ↔
      enters (.reference kind name m) ∧ t = ⟨kind, name, m.variation⟩ := by
  constructor
  · intro h
    cases h with
    | reference there => exact ⟨there, rfl⟩
    | later after => cases after
  · rintro ⟨there, rfl⟩
    exact .reference there

theorem Refers.mono {enters' : Piece → Prop} {pieces : List Piece} (h : Refers enters pieces t)
    (more : ∀ p, enters p → enters' p) : Refers enters' pieces t := by
  induction h with
  | reference there => exact .reference (more _ there)
  | inGroup there _ ih => exact .inGroup (more _ there) ih
  | later _ ih => exact .later ih

mutual

theorem mem_targets : (p : Piece) → (t ∈ p.targets ↔ Refers (fun _ => True) [p] t)
  | word text => by
    constructor
    · simp [targets]
    · intro h
      cases h with
      | later after => cases after
  | group pieces value m => by
    rw [targets, refers_group, mem_targetsOf pieces, true_and]
  | reference kind name m => by
    rw [targets, refers_reference, List.mem_singleton, true_and]

/-- The targets of pieces are those of their references, at any depth of groups. -/
theorem mem_targetsOf :
    (pieces : List Piece) → (t ∈ targetsOf pieces ↔ Refers (fun _ => True) pieces t)
  | [] => by
    constructor
    · simp [targetsOf]
    · intro h
      cases h
  | p :: rest => by
    rw [targetsOf, List.mem_append, refers_cons, mem_targets p, mem_targetsOf rest]

end
end
end Piece

namespace Store

variable {s : Store} {enters : Piece → Prop}

/-- The target names a definition of the store and, if it names a variation, one that is there. -/
def Resolves (s : Store) (t : Target) : Prop :=
  ∃ d, s.find? t.kind t.name = some d ∧
    ∀ v, t.variation = some v → ∃ w ∈ d.variations, w.name = some v

/-- A rule that the target stands for refers to the other one. -/
def Leads (s : Store) (enters : Piece → Prop) (t other : Target) : Prop :=
  ∃ d rules, s.resolve t = .ok (d, rules) ∧ ∃ r ∈ rules, Piece.Refers enters r.pieces other

/-- References lead from the pieces to the target, directly or through the rules of others. -/
def Reaches (s : Store) (enters : Piece → Prop) (pieces : List Piece) (t : Target) : Prop :=
  ∃ first, Piece.Refers enters pieces first ∧ ReflTransGen (s.Leads enters) first t

theorem isSome_variation? {d : Definition} {v : String} :
    (d.variation? (some v)).isSome ↔ ∃ w ∈ d.variations, w.name = some v := by
  simp [Definition.variation?, List.find?_isSome]

theorem exists_rulesOf_iff {d : Definition} {variation : Option String} :
    (∃ rules, d.rulesOf variation = .ok rules) ↔
      ∀ v, variation = some v → ∃ w ∈ d.variations, w.name = some v := by
  cases variation with
  | none => simp [Definition.rulesOf]
  | some v =>
    simp only [Option.some.injEq, forall_eq', ← isSome_variation?, Definition.rulesOf]
    cases d.variation? (some v) <;> simp

/-- A target that is there resolves, and no other one does. -/
theorem resolves_iff {t : Target} : s.Resolves t ↔ ∃ d rules, s.resolve t = .ok (d, rules) := by
  simp only [Resolves, resolve_eq_ok, exists_and_left, exists_rulesOf_iff]

variable {t first : Target} {m : Modifiers} {kind : Kind} {name : String}

/-! ## From pieces -/

theorem reaches_word {text : String} : ¬ s.Reaches enters [.word text] t := by
  rintro ⟨first, refers, _⟩
  cases refers with
  | later after => cases after

theorem reaches_cons {p : Piece} {rest : List Piece} :
    s.Reaches enters (p :: rest) t ↔ s.Reaches enters [p] t ∨ s.Reaches enters rest t := by
  have cons : ∀ first, Piece.Refers enters (p :: rest) first ↔
      Piece.Refers enters [p] first ∨ Piece.Refers enters rest first := fun _ => Piece.refers_cons
  simp only [Reaches, cons, or_and_right, exists_or]

theorem reaches_group {pieces : List Piece} {value : Option String} :
    s.Reaches enters [.group pieces value m] t ↔
      enters (.group pieces value m) ∧ s.Reaches enters pieces t := by
  simp only [Reaches, Piece.refers_group, and_assoc, exists_and_left]

theorem reaches_reference :
    s.Reaches enters [.reference kind name m] t ↔ enters (.reference kind name m) ∧
      ReflTransGen (s.Leads enters) ⟨kind, name, m.variation⟩ t := by
  simp only [Reaches, Piece.refers_reference, and_assoc, exists_and_left, exists_eq_left]

/-- What a target leads to, one of its rules reaches. -/
theorem transGen_iff {other : Target} :
    TransGen (s.Leads enters) t other ↔
      ∃ d rules, s.resolve t = .ok (d, rules) ∧ ∃ r ∈ rules, s.Reaches enters r.pieces other := by
  rw [TransGen.head'_iff]
  constructor
  · rintro ⟨next, ⟨d, rules, resolves, r, hr, refers⟩, further⟩
    exact ⟨d, rules, resolves, r, hr, next, refers, further⟩
  · rintro ⟨d, rules, resolves, r, hr, next, refers, further⟩
    exact ⟨next, ⟨d, rules, resolves, r, hr, refers⟩, further⟩

theorem Reaches.trans {pieces : List Piece} (h : s.Reaches enters pieces first)
    (further : ReflTransGen (s.Leads enters) first t) : s.Reaches enters pieces t := by
  obtain ⟨start, refers, here⟩ := h
  exact ⟨start, refers, here.trans further⟩

/-- The rules of a target that is reached reach nothing else than the pieces do. -/
theorem Reaches.inRule {d : Definition} {rules : List Rule} {r : Rule} {pieces : List Piece}
    (h : s.Reaches enters pieces first) (resolves : s.resolve first = .ok (d, rules))
    (hr : r ∈ rules) (inside : s.Reaches enters r.pieces t) : s.Reaches enters pieces t :=
  h.trans (transGen_iff.mpr ⟨d, rules, resolves, r, hr, inside⟩).to_reflTransGen

/-! ## Closed stores -/

/-- Every reference among the pieces resolves, at any depth of groups. -/
def Grounded (s : Store) (pieces : List Piece) : Prop :=
  ∀ t, Piece.Refers (fun _ => True) pieces t → s.Resolves t

/-- So does every one in the rules of the store. -/
def Closed (s : Store) : Prop :=
  ∀ kind name d, s.find? kind name = some d → ∀ r ∈ d.allRules, s.Grounded r.pieces

theorem checkTarget_eq_none {owner : String} :
    s.checkTarget kind owner t = none ↔ s.Resolves t := by
  unfold checkTarget Resolves
  cases s.find? t.kind t.name with
  | none => simp
  | some d =>
    cases t.variation with
    | none => simp
    | some v => simp [← isSome_variation?, Option.isSome_iff_ne_none]

theorem mem_definitions {d : Definition} :
    d ∈ s.definitions kind ↔ ∃ name, s.find? kind name = some d := by
  simp [definitions, Table.values, find?, Table.mem_entries, Prod.exists]

/-- The check reports nothing just where every reference resolves. -/
theorem dangling_eq_nil_iff : s.dangling = [] ↔ s.Closed := by
  have kinds : ∀ kind, kind ∈ Kind.all := by intro kind; cases kind <;> simp [Kind.all]
  simp only [dangling, Closed, Grounded, List.flatMap_eq_nil_iff, List.filterMap_eq_nil_iff, kinds,
    forall_const, mem_definitions, checkTarget_eq_none, Rule.targets, Piece.mem_targetsOf,
    forall_exists_index]
  exact ⟨fun h kind name d => h kind d name, fun h kind name d => h kind d name⟩

/-- The rules that a target of a closed store means refer to what resolves. -/
theorem Closed.inRule (closed : s.Closed) {d : Definition} {rules : List Rule} {r : Rule}
    (resolves : s.resolve t = .ok (d, rules)) (hr : r ∈ rules) : s.Grounded r.pieces := by
  obtain ⟨found, meant⟩ := resolve_eq_ok.mp resolves
  exact closed _ _ d found r (mem_allRules_of_rulesOf meant hr)

/-- What grounded pieces reach in a closed store resolves. -/
theorem Closed.reaches (closed : s.Closed) {pieces : List Piece} (grounded : s.Grounded pieces)
    (h : s.Reaches enters pieces t) : s.Resolves t := by
  obtain ⟨first, refers, further⟩ := h
  induction further with
  | refl => exact grounded _ (refers.mono fun _ _ => trivial)
  | tail _ leads _ =>
    obtain ⟨d, rules, resolves, r, hr, refers⟩ := leads
    exact closed.inRule resolves hr _ (refers.mono fun _ _ => trivial)

end Store
end Phrasebook
