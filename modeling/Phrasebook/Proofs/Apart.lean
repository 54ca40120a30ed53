import Phrasebook.Proofs.Making
import Phrasebook.Proofs.Reach
import Phrasebook.Proofs.WellFormed

/-!
# Stores side by side

Two stores without a definition in common can be put together, and then neither notices the other.

* `Store.Apart`, `Store.Joins`: nothing in common, and the definitions of both;
* `foldlM_declare_beside`: declarations make the same beside another store as alone;
* `merge_of_apart`: merging such stores succeeds, with the definitions of both.
-/

namespace Phrasebook
namespace Store

variable {s t a b c grown : Store} {decl : Declaration} {made : List Declaration}

theorem ext_find? (same : ∀ kind name, a.find? kind name = b.find? kind name) : a = b :=
  Store.ext fun kind => Table.ext (same kind)

/-- No kind and name is defined in both. -/
def Apart (a b : Store) : Prop :=
  ∀ kind name, a.find? kind name = none ∨ b.find? kind name = none

/-- A store with the definitions of two others. -/
def Joins (a b c : Store) : Prop :=
  ∀ kind name, c.find? kind name = (a.find? kind name).or (b.find? kind name)

theorem Apart.symm (h : a.Apart b) : b.Apart a := fun kind name => (h kind name).symm

theorem Apart.absent (h : a.Apart b) {kind : Kind} {name : String}
    (there : (b.find? kind name).isSome = true) : a.find? kind name = none := by
  rcases h kind name with none | none
  · exact none
  · rw [none] at there
    cases there

theorem joins_empty (a : Store) : a.Joins ∅ a := by
  intro kind name
  rw [find?_empty, Option.or_none]

theorem Joins.symm (apart : a.Apart b) (h : a.Joins b c) : b.Joins a c := by
  intro kind name
  rw [h]
  rcases apart kind name with none | none <;> simp [none]

theorem Joins.unique {c' : Store} (h : a.Joins b c) (h' : a.Joins b c') : c = c' :=
  ext_find? fun kind name => (h kind name).trans (h' kind name).symm

/-! ## Declaring -/

theorem declare_beside (apart : a.Apart grown) (joins : a.Joins t c)
    (declared : t.declare decl = .ok grown) :
    ∃ c', c.declare decl = .ok c' ∧ a.Joins grown c' := by
  obtain ⟨free, rfl⟩ := declare_eq_ok.mp declared
  have absent : a.find? decl.kind decl.name = none :=
    apart.absent (by rw [find?_put, if_pos ⟨rfl, rfl⟩]; rfl)
  have same : c.grows decl = t.grows decl := by
    rw [grows, grows, joins, absent, Option.none_or]
  refine ⟨_, declare_eq_ok.mpr ⟨same ▸ free, rfl⟩, ?_⟩
  intro kind name
  rw [find?_put, find?_put, joins, same]
  by_cases here : kind = decl.kind ∧ name = decl.name
  · simp [here, absent]
  · simp [here]

/-- Declarations that make a store make the same definitions beside any store that has none of
them. -/
theorem foldlM_declare_beside (apart : a.Apart grown) (joins : a.Joins t c)
    (declared : made.foldlM declare t = .ok grown) :
    ∃ c', made.foldlM declare c = .ok c' ∧ a.Joins grown c' := by
  induction made generalizing t c with
  | nil =>
    cases declared
    exact ⟨c, rfl, joins⟩
  | cons decl made ih =>
    rw [List.foldlM_cons] at declared
    obtain ⟨next, first, later⟩ := bind_eq_ok.mp declared
    have early : a.Apart next := by
      intro kind name
      cases there : next.find? kind name with
      | none => exact .inr rfl
      | some d =>
        have kept := (isSome_of_foldlM later).1 kind name (by rw [there]; rfl)
        exact .inl (apart.absent kept)
    obtain ⟨next', first', joined⟩ := declare_beside early joins first
    obtain ⟨c', later', whole⟩ := ih joined later
    refine ⟨c', ?_, whole⟩
    rw [List.foldlM_cons, first']
    exact later'

/-! ## Merging -/

/-- Every definition is kept under its own kind and name. -/
def Keyed (s : Store) : Prop :=
  ∀ kind name d, s.find? kind name = some d → d.kind = kind ∧ d.name = name

theorem WellFormed.keyed (h : s.WellFormed) : s.Keyed := by
  intro kind name d found
  have wellFormed := h kind name d found
  exact ⟨wellFormed.kind_eq, wellFormed.name_eq⟩

theorem Keyed.mem_all (h : s.Keyed) {d : Definition} :
    d ∈ s.all ↔ s.find? d.kind d.name = some d := by
  constructor
  · intro there
    obtain ⟨kind, _, there⟩ := List.mem_flatMap.mp there
    obtain ⟨name, found⟩ := mem_definitions.mp there
    obtain ⟨rfl, rfl⟩ := h kind name d found
    exact found
  · exact mem_all_of_find?

/-- Two definitions that could not both be kept in one store. -/
def Distinct (d e : Definition) : Prop := ¬ (d.kind = e.kind ∧ d.name = e.name)

theorem Keyed.distinct (h : s.Keyed) : s.all.Pairwise Distinct := by
  refine List.pairwise_flatMap.mpr ⟨fun kind _ => ?_, ?_⟩
  · refine List.pairwise_map.mpr ((s.table kind).sorted.imp_of_mem fun {e f} he hf less same => ?_)
    obtain ⟨-, named⟩ := h kind e.1 e.2 (Table.mem_entries.mp he)
    obtain ⟨-, named'⟩ := h kind f.1 f.2 (Table.mem_entries.mp hf)
    rw [← named, ← named', same.2] at less
    exact String.lt_irrefl _ less
  · have kinds : Kind.all.Pairwise (· ≠ ·) := by decide
    refine kinds.imp fun {kind kind'} other d hd e he same => other ?_
    obtain ⟨name, found⟩ := mem_definitions.mp hd
    obtain ⟨name', found'⟩ := mem_definitions.mp he
    rw [← (h _ _ _ found).1, ← (h _ _ _ found').1, same.1]

theorem insertAll_of_absent {ds : List Definition} (distinct : ds.Pairwise Distinct)
    (absent : ∀ d ∈ ds, s.find? d.kind d.name = none) :
    ∃ c, s.insertAll ds = (c, none) ∧ ∀ kind name d, c.find? kind name = some d ↔
      s.find? kind name = some d ∨ d ∈ ds ∧ d.kind = kind ∧ d.name = name := by
  induction ds generalizing s with
  | nil => exact ⟨s, rfl, by simp⟩
  | cons d ds ih =>
    obtain ⟨other, distinct⟩ := List.pairwise_cons.mp distinct
    have new := absent d List.mem_cons_self
    have inserted : s.insert d = .ok (s.put d.kind d.name d) := by simp [insert, new]
    have absent' : ∀ e ∈ ds, (s.put d.kind d.name d).find? e.kind e.name = none := by
      intro e he
      rw [find?_put, if_neg fun same => other e he ⟨same.1.symm, same.2.symm⟩]
      exact absent e (List.mem_cons_of_mem _ he)
    obtain ⟨c, moved, found⟩ := ih distinct absent'
    refine ⟨c, by rw [insertAll, inserted]; exact moved, fun kind name e => ?_⟩
    rw [found, find?_put]
    by_cases here : kind = d.kind ∧ name = d.name
    · obtain ⟨rfl, rfl⟩ := here
      rw [if_pos ⟨rfl, rfl⟩, new]
      grind
    · rw [if_neg here]
      grind

/-- Stores without a definition in common are merged into one with the definitions of both. -/
theorem merge_of_apart (keyed : b.Keyed) (apart : a.Apart b) :
    ∃ c, a.merge b = (c, none) ∧ a.Joins b c := by
  have absent : ∀ d ∈ b.all, a.find? d.kind d.name = none := by
    intro d hd
    exact apart.absent (by rw [keyed.mem_all.mp hd]; rfl)
  obtain ⟨c, moved, found⟩ := insertAll_of_absent keyed.distinct absent
  refine ⟨c, moved, fun kind name => Option.ext fun d => ?_⟩
  have here : d ∈ b.all ∧ d.kind = kind ∧ d.name = name ↔ b.find? kind name = some d := by
    constructor
    · rintro ⟨there, rfl, rfl⟩
      exact keyed.mem_all.mp there
    · intro there
      exact ⟨mem_all_of_find? there, keyed kind name d there⟩
  rw [found, here, Option.or_eq_some_iff]
  rcases apart kind name with none | none <;> simp [none]

end Store
end Phrasebook
