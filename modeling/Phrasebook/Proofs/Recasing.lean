import Mathlib
import Phrasebook.Proofs.CaseForms
import Phrasebook.Proofs.Produced
import Phrasebook.Rule.Reader
import Phrasebook.Template

/-!
# Recasing joined fragments

A fragment that is joined of two and then recased, beside the two recased first.

* `recase_append_of_ne`: except for capitalizing it comes to the same;
* `Entity.Opens`: what capitalizing goes by, an entity's text and not the place where it stands;
* `recase_append`: so capitalizing a joined fragment does the same as capitalizing its first part
  just where no entity opens the whole by its text alone;
* `repeated_text_recased`: a slot whose text is also the first word.

Mathlib is imported whole: the runs at the end are evaluated with equations from all over it.
-/

namespace Phrasebook

namespace Casing

theorem apply_joinTexts {c : Casing} (each : c ≠ .capitalized) (a b : String) :
    c.apply (joinTexts a b) = joinTexts (c.apply a) (c.apply b) := by
  by_cases first : a = ""
  · rw [first, empty_joinTexts, apply_eq_empty.mpr rfl, empty_joinTexts]
  by_cases second : b = ""
  · rw [second, joinTexts_empty, (apply_eq_empty (c := c)).mpr rfl, joinTexts_empty]
  have first' : c.apply a ≠ "" := mt apply_eq_empty.mp first
  have second' : c.apply b ≠ "" := mt apply_eq_empty.mp second
  apply String.toList_inj.mp
  rw [toList_joinTexts first' second']
  cases c with
  | asWritten => exact toList_joinTexts first second
  | upper =>
    simp only [apply, String.toList_ofList, toList_joinTexts first second, Text.capitals_append,
      Text.capitals_cons_blank]
  | lower =>
    simp only [apply, String.toList_ofList, toList_joinTexts first second, Text.smalls_append_blank]
  | capitalized => exact absurd rfl each

/-- Capitalizing does not reach behind the first text. -/
theorem capitalized_joinTexts {a : String} (first : a ≠ "") (b : String) :
    capitalized.apply (joinTexts a b) = joinTexts (capitalized.apply a) b := by
  by_cases second : b = ""
  · rw [second, joinTexts_empty, joinTexts_empty]
  have first' : capitalized.apply a ≠ "" := mt apply_eq_empty.mp first
  apply String.toList_inj.mp
  rw [toList_joinTexts first' second]
  simp only [apply, String.toList_ofList, toList_joinTexts first second]
  cases letters : a.toList with
  | nil => exact absurd (String.toList_eq_nil_iff.mp letters) first
  | cons c rest => simp only [Text.capitalized, List.cons_append, List.append_assoc]

end Casing

namespace Fragment

theorem recase_append_of_ne {c : Casing} (each : c ≠ .capitalized) (f g : Fragment) :
    (f.append g).recase c = (f.recase c).append (g.recase c) := by
  simp [recase, append, each, Casing.apply_joinTexts]

end Fragment

/-- The fragment starts with the text of the entity, whether or not the entity stands there. -/
def Entity.Opens (e : Entity) (f : Fragment) : Prop := e.text.toList <+: f.text.toList

instance (e : Entity) (f : Fragment) : Decidable (e.Opens f) :=
  inferInstanceAs (Decidable (e.text.toList <+: f.text.toList))

theorem Entity.Opens.append {e : Entity} {f : Fragment} (opens : e.Opens f) (g : Fragment) :
    e.Opens (f.append g) :=
  List.IsPrefix.trans opens (prefix_joinTexts f.text g.text)

/-- Capitalizing leaves the text of the entity as it is. -/
def Entity.Capital (e : Entity) : Prop := Casing.capitalized.apply e.text = e.text

namespace Fragment

open Casing

/-- An entity of a fragment, as it is in the capitalized one. -/
def capitalizedIn (f : Fragment) (e : Entity) : Entity :=
  if e.Opens f then { e with text := capitalized.apply e.text } else e

theorem recase_capitalized (f : Fragment) :
    f.recase .capitalized = ⟨capitalized.apply f.text, f.entities.map f.capitalizedIn⟩ := by
  simp only [recase, ne_eq, not_true_eq_false, decide_false, Bool.false_or,
    List.isPrefixOf_iff_prefix]
  rfl

theorem capitalizedIn_eq_self {f : Fragment} {e : Entity} :
    f.capitalizedIn e = e ↔ (e.Opens f → e.Capital) := by
  unfold capitalizedIn Entity.Capital
  by_cases opens : e.Opens f
  · rw [if_pos opens]
    exact ⟨fun same _ => congrArg Entity.text same, fun same => by rw [same opens]⟩
  · simp only [opens, if_false, false_implies]

theorem capitalizedIn_append {f g : Fragment} {e : Entity} :
    (f.append g).capitalizedIn e = f.capitalizedIn e ↔
      (e.Opens (f.append g) → e.Opens f ∨ e.Capital) := by
  by_cases opens : e.Opens f
  · have opens' : e.Opens (f.append g) := Entity.Opens.append opens g
    simp only [capitalizedIn, opens, opens', if_true, true_or, implies_true]
  · have left : f.capitalizedIn e = e := if_neg opens
    rw [left, capitalizedIn_eq_self]
    simp only [opens, false_or]

/-- The two sides have the same text, so it comes down to the entities one by one. -/
theorem capitalized_append_iff {f : Fragment} (filled : f.text ≠ "") (g : Fragment) :
    (f.append g).recase .capitalized = (f.recase .capitalized).append g ↔
      (∀ e ∈ f.entities, e.Opens (f.append g) → e.Opens f ∨ e.Capital) ∧
        ∀ e ∈ g.entities, e.Opens (f.append g) → e.Capital := by
  have left : (f.append g).recase .capitalized = ⟨joinTexts (capitalized.apply f.text) g.text,
      f.entities.map (f.append g).capitalizedIn ++ g.entities.map (f.append g).capitalizedIn⟩ := by
    rw [recase_capitalized, ← List.map_append, ← capitalized_joinTexts filled]
    rfl
  have right : (f.recase .capitalized).append g =
      ⟨joinTexts (capitalized.apply f.text) g.text,
        f.entities.map f.capitalizedIn ++ g.entities⟩ := by
    rw [recase_capitalized]
    rfl
  have own : f.entities.map (f.append g).capitalizedIn = f.entities.map f.capitalizedIn ↔
      ∀ e ∈ f.entities, e.Opens (f.append g) → e.Opens f ∨ e.Capital := by
    simp only [List.map_inj_left, capitalizedIn_append]
  have others : g.entities.map (f.append g).capitalizedIn = g.entities ↔
      ∀ e ∈ g.entities, e.Opens (f.append g) → e.Capital := by
    have each : g.entities.map (f.append g).capitalizedIn = g.entities.map id ↔
        ∀ e ∈ g.entities, (f.append g).capitalizedIn e = e := List.map_inj_left
    rw [List.map_id] at each
    simpa only [capitalizedIn_eq_self] using each
  rw [left, right, mk.injEq, ← own, ← others]
  constructor
  · rintro ⟨-, entities⟩
    exact List.append_inj entities (by simp only [List.length_map])
  · rintro ⟨same, same'⟩
    rw [same, same']
    exact ⟨rfl, rfl⟩

/-- **Recasing and joining.** Large and small letters, and the text of what is capitalized, are the
same whichever comes first. The entities of what is capitalized are the same just where every one
that the whole starts with stands in the first part, which starts with it too, or has no other
capital form. -/
theorem recase_append {f : Fragment} (filled : f.text ≠ "") (g : Fragment) :
    (f.append g).recase .upper = (f.recase .upper).append (g.recase .upper) ∧
      (f.append g).recase .lower = (f.recase .lower).append (g.recase .lower) ∧
      ((f.append g).recase .capitalized).text = ((f.recase .capitalized).append g).text ∧
      ((f.append g).recase .capitalized = (f.recase .capitalized).append g ↔
        (∀ e ∈ f.entities, e.Opens (f.append g) → e.Opens f ∨ e.Capital) ∧
          ∀ e ∈ g.entities, e.Opens (f.append g) → e.Capital) :=
  ⟨recase_append_of_ne (by decide) f g, recase_append_of_ne (by decide) f g,
    capitalized_joinTexts filled g.text, capitalized_append_iff filled g⟩

/-- The name stands at the end, and only large letters reach it. -/
theorem recase_append_greeting : ∃ f g : Fragment, f.text ≠ "" ∧
    (f.append g).recase .upper = ⟨"I AM BOB", [⟨"name", "BOB", "robert"⟩]⟩ ∧
      (f.append g).recase .upper = (f.recase .upper).append (g.recase .upper) ∧
      (f.append g).recase .lower = (f.recase .lower).append (g.recase .lower) ∧
      (f.append g).recase .capitalized = ⟨"I am bob", [⟨"name", "bob", "robert"⟩]⟩ ∧
      (f.append g).recase .capitalized = (f.recase .capitalized).append g := by
  let f : Fragment := .word "i am"
  let g : Fragment := ⟨"bob", [⟨"name", "bob", "robert"⟩]⟩
  have filled : f.text ≠ "" := by decide
  obtain ⟨upper, lower, _, same⟩ := recase_append filled g
  have closed : ∀ e ∈ g.entities, e.Opens (f.append g) → e.Capital := by
    intro e he opens
    rw [List.mem_singleton.mp he] at opens
    exact absurd opens (by decide)
  refine ⟨f, g, filled, by decide +kernel, upper, lower, by decide +kernel, same.mpr ⟨?_, closed⟩⟩
  rintro e ⟨⟩

/-- The name is capitalized though it stands at the end, since the first word reads the same. -/
theorem repeated_text_recased : ∃ (s : Store) (r : Rule) (f g : Fragment) (w : Words),
    Template.read {} "@[name]\n  bob = robert\n" = .ok s ∧
      Rule.read "[&bob @[name]]" = .ok r ∧ f.text ≠ "" ∧
      (s.expandRule [] r ⟨w, []⟩).1 = .ok ((f.append g).recase .capitalized) ∧
      (f.append g).recase .capitalized = ⟨"Bob bob", [⟨"name", "Bob", "robert"⟩]⟩ ∧
      (f.recase .capitalized).append g = ⟨"Bob bob", [⟨"name", "bob", "robert"⟩]⟩ := by
  let s : Store := ⟨∅, ⟨[("name", ⟨"name", .slot, false,
    [⟨none, none, [⟨[.word "bob"], some "robert"⟩]⟩]⟩)], by decide⟩, ∅⟩
  let r : Rule := ⟨[.group [.word "bob", .reference .slot "name" {}] none { casing := true }], none⟩
  let w : Words := ⟨fun _ => 0xFFFFFFFF, 0⟩
  have loaded : Template.read {} "@[name]\n  bob = robert\n" = .ok s := by cbv
  have read : Rule.read "[&bob @[name]]" = .ok r := by cbv
  have run : (s.expandRule [] r ⟨w, []⟩).1 = .ok ⟨"Bob bob", [⟨"name", "Bob", "robert"⟩]⟩ := by cbv
  exact ⟨s, r, .word "bob", ⟨"bob", [⟨"name", "bob", "robert"⟩]⟩, w, loaded, read, by decide, run,
    by decide +kernel, by decide +kernel⟩

end Fragment
end Phrasebook
