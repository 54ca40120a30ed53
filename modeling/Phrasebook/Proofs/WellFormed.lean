import Mathlib
import Phrasebook.Proofs.Declared
import Phrasebook.Proofs.Sound

/-!
# Well-formed stores

What generating relies on, and what nothing else than reading a template makes sure of: no choice is
made among nothing, every percentage is one, and only where it means something is there a count or a
value.

* `Definition.Regular`, `Definition.WellFormed`: of a definition, as it grows and when it is done;
* `Rule.wellFormed_of_readFor`, `Declaration.Written.wellFormed`: what the readers of rules and of
  declaration lines make sure of;
* `Definition.Regular.grow`, `Store.wellFormed_declare`: what a successful declaration adds to it;
* `Store.wellFormed_of_loaded`: every store that is loaded is well formed.

Mathlib is imported whole: the templates that are read at the end are evaluated with equations from
all over it.
-/

namespace Phrasebook

/-- Only the rules of slots have values. -/
structure Rule.WellFormed (kind : Kind) (r : Rule) : Prop where
  sound : r.Sound
  valued : r.value ≠ none → kind = .slot

/-- What a head line says: a variation's name is one that authors can use, and only intents ask for
a count. -/
structure Variation.Headed (kind : Kind) (v : Variation) : Prop where
  named : ∀ name, v.name = some name → name ≠ ""
  counted : ∀ n, v.count = some n → kind = .intent ∧ 1 ≤ n

structure Variation.WellFormed (kind : Kind) (v : Variation) : Prop extends v.Headed kind where
  free : ∀ name, v.name = some name → name ∉ reservedVariations
  nonempty : v.rules ≠ []
  rules : ∀ r ∈ v.rules, r.WellFormed kind

/-- A definition that is known under this kind and name, perhaps without a variation yet. -/
structure Definition.Regular (kind : Kind) (name : String) (d : Definition) : Prop where
  kind_eq : d.kind = kind
  name_eq : d.name = name
  distinct : (d.variations.map Variation.name).Nodup
  variations : ∀ v ∈ d.variations, v.WellFormed kind

structure Definition.WellFormed (kind : Kind) (name : String) (d : Definition) : Prop
    extends d.Regular kind name where
  nonempty : d.variations ≠ []

def Store.WellFormed (s : Store) : Prop :=
  ∀ kind name d, s.find? kind name = some d → d.WellFormed kind name

/-! ## Rules -/

namespace Rule

theorem read_sound {text : String} {r : Rule} (h : read text = .ok r) :
    r.Sound ∧ r.value = none := by
  obtain ⟨reads, nonempty, none⟩ := read_eq_ok.mp h
  exact ⟨⟨nonempty, reads.sound, by simp [none]⟩, none⟩

theorem wellFormed_of_readFor {kind : Kind} {line : String} {r : Rule}
    (h : readFor kind line = .ok r) : r.WellFormed kind := by
  unfold readFor at h
  split at h
  · next slot => exact ⟨readSlot_sound h, fun _ => slot⟩
  · obtain ⟨sound, none⟩ := read_sound h
    exact ⟨sound, fun some => absurd none some⟩

end Rule

/-! ## Declaration lines -/

theorem Count.read_pos {text : String} {n : UInt64} (h : read text = .ok n) : 1 ≤ n := by
  unfold read at h
  split at h
  · split at h
    · next positive =>
      cases h
      exact UInt64.le_iff_toNat_le.mpr (UInt64.lt_iff_toNat_lt.mp positive)
    · cases h
  · cases h

theorem Count.asked_pos {line : String} {n : UInt64} (h : asked line = .ok (some n)) : 1 ≤ n := by
  unfold asked at h
  split at h
  · cases h
  · obtain ⟨m, reads, h⟩ := bind_eq_ok.mp h
    split at h
    · cases h
      exact read_pos reads
    · cases h

namespace Declaration

theorem readCount_some {kind : Kind} {line : String} {after : List Char} {n : UInt64}
    (h : readCount kind line after = .ok (some n)) : kind = .intent ∧ 1 ≤ n := by
  unfold readCount at h
  split at h
  · cases h
  · split at h
    · next intent =>
      obtain ⟨count, asked, h⟩ := bind_eq_ok.mp h
      split at h
      · cases h
      · split at h
        · cases h
          simp only [Bool.and_eq_true, decide_eq_true_eq] at intent
          exact ⟨intent.1.1, Count.asked_pos asked⟩
        · cases h
    · cases h

theorem read_headed {text : List Char} {d : Declaration} (h : read text = .ok d) :
    d.variation.Headed d.kind := by
  simp only [read] at h
  split at h
  · cases h
  · obtain ⟨block, reads, h⟩ := bind_eq_ok.mp h
    split at h
    · cases h
    · split at h
      · cases h
      · obtain ⟨count, counts, h⟩ := bind_eq_ok.mp h
        cases h
        refine ⟨?_, ?_⟩
        · rintro name varied rfl
          exact (Block.read_sound reads).1.variation varied
        · rintro n rfl
          exact readCount_some counts

/-- A written declaration is well formed as soon as the store does not refuse it. -/
theorem Written.wellFormed {decl : Declaration} (written : decl.Written) {d : Definition}
    (free : d.refusal? decl.variation = none) : decl.variation.WellFormed decl.kind := by
  obtain ⟨unreserved, _, nonempty, _⟩ := Definition.refusal?_eq_none.mp free
  obtain ⟨text, start, _, read, same⟩ := written.head
  have headed : decl.variation.Headed decl.kind := by
    rw [same]
    exact ⟨(read_headed read).named, (read_headed read).counted⟩
  refine { headed with free := unreserved, nonempty, rules := fun r hr => ?_ }
  obtain ⟨line, _, reads⟩ := written.rules r hr
  exact Rule.wellFormed_of_readFor reads

end Declaration

/-! ## Declaring -/

namespace Definition

theorem regular_start (kind : Kind) (name : String) : (start kind name).Regular kind name :=
  ⟨rfl, rfl, List.nodup_nil, fun _ none => absurd none List.not_mem_nil⟩

/-- A variation that is not refused has a new name. -/
theorem Regular.grow {d : Definition} {kind : Kind} {name : String} (h : d.Regular kind name)
    {v : Variation} (free : d.refusal? v = none) (added : v.WellFormed kind) (casing : Bool) :
    Definition.WellFormed kind name
      { d with casing, variations := d.variations ++ [v] } where
  kind_eq := h.kind_eq
  name_eq := h.name_eq
  nonempty := List.append_ne_nil_of_right_ne_nil _ (List.cons_ne_nil _ _)
  distinct := by
    obtain ⟨_, _, _, absent⟩ := refusal?_eq_none.mp free
    rw [List.map_append, List.map_singleton, List.nodup_append]
    refine ⟨h.distinct, List.pairwise_singleton _ _, ?_⟩
    rintro other known _ new rfl
    obtain ⟨w, hw, named⟩ := List.mem_map.mp known
    refine List.find?_eq_none.mp absent w hw ?_
    simp [named, List.mem_singleton.mp new]
  variations := by
    intro w hw
    rcases List.mem_append.mp hw with old | new
    · exact h.variations w old
    · exact List.mem_singleton.mp new ▸ added

end Definition

namespace Store

theorem WellFormed.grows {s : Store} (h : s.WellFormed) (decl : Declaration) :
    (s.grows decl).Regular decl.kind decl.name := by
  unfold Store.grows
  cases there : s.find? decl.kind decl.name with
  | none => exact Definition.regular_start decl.kind decl.name
  | some d => exact (h _ _ _ there).toRegular

theorem wellFormed_declare {s grown : Store} {decl : Declaration} (written : decl.Written)
    (declared : s.declare decl = .ok grown) (h : s.WellFormed) : grown.WellFormed := by
  obtain ⟨free, rfl⟩ := declare_eq_ok.mp declared
  intro kind name d found
  rw [find?_put] at found
  split at found
  · next here =>
    cases found
    rw [here.1, here.2]
    exact (h.grows decl).grow free (written.wellFormed free) _
  · exact h kind name d found

theorem Declares.wellFormed {s : Store} (h : (∅ : Store).Declares s) : s.WellFormed := by
  refine h.keeps ?_ ?_
  · intro s decl grown written declared
    exact wellFormed_declare written declared
  · intro kind name d found
    cases kind <;> cases found

/-- **Every store that is loaded is well formed**, from a text or from a file, and whatever these
include. -/
theorem wellFormed_of_loaded {fs : Files} {s : Store}
    (loaded : (∃ text, Template.read fs text = .ok s) ∨ ∃ path, Template.load fs path = .ok s) :
    s.WellFormed := by
  rcases loaded with ⟨text, read⟩ | ⟨path, load⟩
  · exact (Template.read_declares read).wellFormed
  · exact (Template.addFile_declares load).wellFormed

theorem wellFormed_of_loaded_greeting : ∃ s : Store,
    Template.read {} "@[name]\n  Bob = robert\n%[hi](3)\n  [hey?g/80] @[name#short]\n" = .ok s ∧
      s.WellFormed := by
  let hi : Rule := ⟨[.group [.word "hey"] none ⟨false, none, some "g", some 80⟩,
    .reference .slot "name" ⟨false, some "short", none, none⟩], none⟩
  let s : Store := ⟨∅,
    ⟨[("name", ⟨"name", .slot, false, [⟨none, none, [⟨[.word "Bob"], some "robert"⟩]⟩]⟩)],
      by decide⟩,
    ⟨[("hi", ⟨"hi", .intent, false, [⟨none, some 3, [hi]⟩]⟩)], by decide⟩⟩
  have read : Template.read {}
      "@[name]\n  Bob = robert\n%[hi](3)\n  [hey?g/80] @[name#short]\n" = .ok s := by cbv
  exact ⟨s, read, wellFormed_of_loaded (.inl ⟨_, read⟩)⟩

end Store
end Phrasebook
