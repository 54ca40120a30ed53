import Mathlib
import Phrasebook.Proofs.CaseForms
import Phrasebook.Proofs.Produced
import Phrasebook.Rule.Reader
import Phrasebook.Template

/-!
# Spaces in what is rendered

Pieces that are left out, groups that come to nothing and references to empty rules leave no trace
in a text: where the words have no blanks in them, the only ones are those that join two of them.

* `Text.Spaced`: visible characters, with single blanks between them;
* `Fragment.Spaced`: a fragment of this kind, or an empty one without entities;
* `tidy_of_words`: whatever a rule is expanded to and whatever is listed for it is of this kind, and
  so has no blank at its start, none at its end, and no two together.

Mathlib is imported whole: the runs at the end are evaluated with equations from all over it.
-/

namespace Phrasebook

namespace Text

/-- Visible characters, with single blanks between them. -/
inductive Spaced : List Char → Prop
  | last {c} (visible : c ≠ ' ') : Spaced [c]
  | cons {c s} (visible : c ≠ ' ') (after : Spaced s) : Spaced (c :: s)
  | blank {c s} (visible : c ≠ ' ') (after : Spaced s) : Spaced (c :: ' ' :: s)

theorem Spaced.ne_nil {s : List Char} (h : Spaced s) : s ≠ [] := by
  cases h <;> exact List.cons_ne_nil _ _

/-! ## What is spaced -/

theorem spaced_of_unbroken {s : List Char} (filled : s ≠ []) (unbroken : ' ' ∉ s) : Spaced s := by
  induction s with
  | nil => exact absurd rfl filled
  | cons c rest ih =>
    have visible : c ≠ ' ' := fun blank => unbroken (blank ▸ List.mem_cons_self)
    by_cases more : rest = []
    · rw [more]
      exact .last visible
    · exact .cons visible (ih more fun blank => unbroken (List.mem_cons_of_mem _ blank))

theorem Spaced.join {s t : List Char} (h : Spaced s) (after : Spaced t) :
    Spaced (s ++ ' ' :: t) := by
  induction h with
  | last visible => exact .blank visible after
  | cons visible _ ih => exact .cons visible ih
  | blank visible _ ih => exact .blank visible ih

theorem Spaced.behind {s t : List Char} (unbroken : ' ' ∉ s) (after : Spaced t) :
    Spaced (s ++ t) := by
  induction s with
  | nil => exact after
  | cons c rest ih =>
    have visible : c ≠ ' ' := fun blank => unbroken (blank ▸ List.mem_cons_self)
    exact .cons visible (ih fun blank => unbroken (List.mem_cons_of_mem _ blank))

theorem Spaced.respell {s t : List Char} (h : Spaced s) (respelled : Respelled s t) :
    Spaced t := by
  induction h generalizing t with
  | last visible =>
    cases respelled with
    | blank => exact absurd rfl visible
    | form _ filled unbroken after =>
      cases after
      rw [List.append_nil]
      exact spaced_of_unbroken filled unbroken
  | cons visible _ ih =>
    cases respelled with
    | blank => exact absurd rfl visible
    | form _ _ unbroken after => exact (ih after).behind unbroken
  | blank visible _ ih =>
    cases respelled with
    | blank => exact absurd rfl visible
    | form _ filled unbroken after =>
      cases after with
      | blank after => exact (spaced_of_unbroken filled unbroken).join (ih after)
      | form visible => exact absurd rfl visible

/-! ## Where a spaced text has no blanks -/

theorem not_prefix_visible {c : Char} (visible : c ≠ ' ') (s t : List Char) :
    ¬ ' ' :: s <+: c :: t :=
  fun start => visible (List.cons_prefix_cons.mp start).1.symm

theorem Spaced.not_leading {s : List Char} (h : Spaced s) : ¬ [' '] <+: s := by
  cases h with
  | last visible => exact not_prefix_visible visible _ _
  | cons visible => exact not_prefix_visible visible _ _
  | blank visible => exact not_prefix_visible visible _ _

theorem Spaced.not_trailing {s : List Char} (h : Spaced s) : ¬ [' '] <:+ s := by
  induction h with
  | last visible => simpa [List.suffix_cons_iff] using visible.symm
  | cons visible _ ih =>
    simpa [List.suffix_cons_iff, ih] using fun blank => absurd blank.symm visible
  | blank _ after ih => simpa [List.suffix_cons_iff, ih] using after.ne_nil

theorem Spaced.not_doubled {s : List Char} (h : Spaced s) : ¬ [' ', ' '] <:+: s := by
  induction h with
  | last visible => simp [List.infix_cons_iff]
  | cons visible _ ih =>
    rw [List.infix_cons_iff]
    exact not_or.mpr ⟨not_prefix_visible visible _ _, ih⟩
  | blank visible after ih =>
    have single : ¬ [' ', ' '] <+: ' ' :: _ :=
      fun two => after.not_leading (List.cons_prefix_cons.mp two).2
    rw [List.infix_cons_iff, List.infix_cons_iff]
    exact not_or.mpr ⟨not_prefix_visible visible _ _, not_or.mpr ⟨single, ih⟩⟩

end Text

namespace Fragment

/-- No blank at either end, no two together, and no entities in nothing. -/
structure Tidy (f : Fragment) : Prop where
  leading : ¬ [' '] <+: f.text.toList
  trailing : ¬ [' '] <:+ f.text.toList
  doubled : ¬ [' ', ' '] <:+: f.text.toList
  empty : f.text = "" → f.entities = []

/-- A spaced text, or nothing at all. -/
inductive Spaced : Fragment → Prop
  | empty : Spaced {}
  | filled {f} (text : Text.Spaced f.text.toList) : Spaced f

theorem Spaced.tidy {f : Fragment} (h : f.Spaced) : f.Tidy := by
  cases h with
  | empty => constructor <;> simp
  | filled text =>
    have visible : f.text ≠ "" := mt String.toList_eq_nil_iff.mpr text.ne_nil
    exact ⟨text.not_leading, text.not_trailing, text.not_doubled, fun none => absurd none visible⟩

theorem Spaced.append {f g : Fragment} (h : f.Spaced) (after : g.Spaced) :
    (f.append g).Spaced := by
  cases h with
  | empty => exact after
  | filled text =>
    cases after with
    | empty =>
      rw [append_empty]
      exact .filled text
    | filled text' =>
      have first : f.text ≠ "" := mt String.toList_eq_nil_iff.mpr text.ne_nil
      have second : g.text ≠ "" := mt String.toList_eq_nil_iff.mpr text'.ne_nil
      refine .filled ?_
      rw [Fragment.append, toList_joinTexts first second]
      exact text.join text'

theorem Spaced.recase {f : Fragment} (h : f.Spaced) (c : Casing) : (f.recase c).Spaced := by
  cases h with
  | empty =>
    have nothing : ({} : Fragment).recase c = {} := by cases c <;> rfl
    rw [nothing]
    exact .empty
  | filled text => exact .filled (text.respell (c.respelled f.text))

theorem Spaced.tagged {f : Fragment} (h : f.Spaced) (slot : String) (value : Option String)
    (written : String) : (f.tagged slot value written).Spaced := by
  cases h with
  | empty => exact .empty
  | filled text =>
    refine .filled ?_
    rw [tagged_text]
    exact text

theorem kept_spaced : Kept (fun text => text ≠ "" ∧ ' ' ∉ text.toList) Spaced where
  empty := .empty
  word _ clear := .filled (Text.spaced_of_unbroken (mt String.toList_eq_nil_iff.mp clear.1) clear.2)
  append _ _ h after := h.append after
  recase c _ h := h.recase c
  tagged _ _ _ _ h := h.tagged _ _ _

end Fragment

namespace Store

/-- **Nothing leaves a stray space.** Where no word of the rule or of the store is empty or has a
blank in it, whatever a run gives, from any trail and with any decisions, and whatever is listed, is
tidy. -/
theorem tidy_of_words {s : Store} {r : Rule}
    (clear : ∀ text ∈ r.words ++ s.words, text ≠ "" ∧ ' ' ∉ text.toList) :
    (∀ trail pass f, (s.expandRule trail r pass).1 = .ok f → f.Tidy) ∧
      ∀ trail l, s.listRule trail r = .ok l → ∀ f ∈ l, f.Tidy := by
  obtain ⟨run, list⟩ := kept_of_words Fragment.kept_spaced clear
  constructor
  · intro trail pass f given
    exact (run trail pass f given).tidy
  · intro trail l listed f hf
    exact (list trail l listed f hf).tidy

set_option maxRecDepth 1024 in
/-- The first word is left out, the slot comes to nothing, and no blank is left. -/
theorem tidy_of_words_greeting : ∃ (s : Store) (r : Rule) (pass : Pass) (f : Fragment)
    (l : List Fragment), Template.read {} "@[name]\n  [bob?/0]\n  ann\n" = .ok s ∧
      Rule.read "[oh?g] @[&name] you" = .ok r ∧
      (∀ text ∈ r.words ++ s.words, text ≠ "" ∧ ' ' ∉ text.toList) ∧
      (s.expandRule [] r pass).1 = .ok f ∧ f.text = "you" ∧ f.entities = [] ∧ f.Tidy ∧
      s.listRule [] r = .ok l ∧ l.map (·.text) = ["oh you", "oh ann you"] ∧
      ∀ f ∈ l, f.Tidy := by
  let name : Definition := ⟨"name", .slot, false, [⟨none, none,
    [⟨[.group [.word "bob"] none { group := some "", percent := some 0 }], none⟩,
      ⟨[.word "ann"], none⟩]⟩]⟩
  let s : Store := ⟨∅, ⟨[("name", name)], by decide⟩, ∅⟩
  let r : Rule := ⟨[.group [.word "oh"] none { group := some "g" },
    .reference .slot "name" { casing := true }, .word "you"], none⟩
  let pass : Pass := ⟨⟨fun n => if n < 2 then 0xFFFFFFFF else 0x40000000, 0⟩, []⟩
  have loaded : Template.read {} "@[name]\n  [bob?/0]\n  ann\n" = .ok s := by cbv
  have read : Rule.read "[oh?g] @[&name] you" = .ok r := by cbv
  have clear : ∀ text ∈ r.words ++ s.words, text ≠ "" ∧ ' ' ∉ text.toList := by decide +kernel
  have run : (s.expandRule [] r pass).1 = .ok ⟨"you", []⟩ := by cbv
  have listed : s.listRule [] r = .ok [⟨"oh you", []⟩,
    ⟨"oh ann you", [⟨"name", "ann", "ann"⟩]⟩] := by cbv
  obtain ⟨runs, lists⟩ := tidy_of_words clear
  exact ⟨s, r, pass, _, _, loaded, read, clear, run, rfl, rfl, runs [] pass _ run, listed, rfl,
    lists [] _ listed⟩

end Store
end Phrasebook
