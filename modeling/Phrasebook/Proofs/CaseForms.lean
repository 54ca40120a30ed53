import Phrasebook.Casing

/-!
# Forms of letters and blanks

What recasing does to the blanks of a text: nothing. A blank stays one, no other character becomes
one or vanishes, and so what stands on either side of a blank is recased by itself.

* `formOf_cases`: where the form of a character comes from. The tables are checked once, entry by
  entry (`capital_visible`, `small_visible`);
* `Respelled`, `Casing.respelled`: a recased text, character by character;
* `capitals_append`, `smalls_append_blank`: the forms of a text are those of its parts. For small
  letters a blank has to be between them, since a capital sigma looks at what is around it.
-/

namespace Phrasebook.Text

/-! ## Tables -/

section
variable {shifts : List Shift} {sequences : List (Nat × List Nat)} {c : Char}

theorem formOf_cases (shifts : List Shift) (sequences : List (Nat × List Nat)) (c : Char) :
    (∃ codes, (c.toNat, codes) ∈ sequences ∧ formOf shifts sequences c = codes.map Char.ofNat) ∨
      (∃ s ∈ shifts, s.holds c.toNat = true ∧
        formOf shifts sequences c = [Char.ofNat (c.toNat + s.distance).toNat]) ∨
      formOf shifts sequences c = [c] := by
  unfold formOf
  split
  · next codes found =>
    obtain ⟨before, after, parts, _⟩ := List.lookup_eq_some_iff.mp found
    exact .inl ⟨codes, parts ▸ List.mem_append_cons_self, rfl⟩
  · split
    · next s found =>
      have holds := List.find?_some found
      exact .inr (.inl ⟨s, List.mem_of_find?_eq_some found, holds, rfl⟩)
    · exact .inr (.inr rfl)

theorem formOf_ne_nil (filled : ∀ e ∈ sequences, e.2 ≠ []) (c : Char) :
    formOf shifts sequences c ≠ [] := by
  rcases formOf_cases shifts sequences c with ⟨codes, listed, form⟩ | ⟨s, _, _, form⟩ | form
  · simpa [form] using filled _ listed
  · simp [form]
  · simp [form]

theorem eq_of_ofNat_blank {n : Nat} (h : Char.ofNat n = ' ') : n = 0x20 := by
  by_cases valid : n.isValidChar
  · rw [Char.ofNat, dif_pos valid] at h
    exact congrArg Char.toNat h
  · rw [Char.ofNat, dif_neg valid] at h
    exact absurd h (by decide)

theorem blank_not_mem_formOf (sequenced : ∀ e ∈ sequences, 0x20 ∉ e.2)
    (shifted : ∀ s ∈ shifts, 0x20 < s.first + s.distance) (visible : c ≠ ' ') :
    ' ' ∉ formOf shifts sequences c := by
  intro blank
  rcases formOf_cases shifts sequences c with ⟨codes, listed, form⟩ | ⟨s, hs, holds, form⟩ | form
  · rw [form] at blank
    obtain ⟨code, hc, same⟩ := List.mem_map.mp blank
    exact sequenced _ listed (eq_of_ofNat_blank same ▸ hc)
  · rw [form, List.mem_singleton] at blank
    have code := eq_of_ofNat_blank blank.symm
    have above := shifted s hs
    simp only [Shift.holds, Bool.and_eq_true, decide_eq_true_eq] at holds
    omega
  · rw [form, List.mem_singleton] at blank
    exact visible blank.symm

end

theorem capital_blank : capital ' ' = [' '] := by decide +kernel

theorem small_blank : small ' ' = [' '] := by decide +kernel

theorem capital_ne_nil (c : Char) : capital c ≠ [] :=
  formOf_ne_nil (by decide +kernel) c

theorem small_ne_nil (c : Char) : small c ≠ [] :=
  formOf_ne_nil (by decide +kernel) c

theorem capital_visible {c : Char} (visible : c ≠ ' ') : ' ' ∉ capital c :=
  blank_not_mem_formOf (by decide +kernel) (by decide +kernel) visible

theorem small_visible {c : Char} (visible : c ≠ ' ') : ' ' ∉ small c :=
  blank_not_mem_formOf (by decide +kernel) (by decide +kernel) visible

/-! ## Recased texts -/

/-- The second text has a blank for each blank of the first, and for every other character at least
one, none of them a blank. -/
inductive Respelled : List Char → List Char → Prop
  | nil : Respelled [] []
  | blank {s t} (after : Respelled s t) : Respelled (' ' :: s) (' ' :: t)
  | form {c cs s t} (visible : c ≠ ' ') (filled : cs ≠ []) (unbroken : ' ' ∉ cs)
      (after : Respelled s t) : Respelled (c :: s) (cs ++ t)

theorem Respelled.eq_nil_iff {s t : List Char} (h : Respelled s t) : t = [] ↔ s = [] := by
  cases h with
  | nil => simp
  | blank => simp
  | form _ filled => simp [filled]

theorem Respelled.cons_of {form : Char → List Char} (blank : form ' ' = [' '])
    (filled : ∀ c, form c ≠ []) (unbroken : ∀ c, c ≠ ' ' → ' ' ∉ form c) (c : Char)
    {s t : List Char} (after : Respelled s t) : Respelled (c :: s) (form c ++ t) := by
  by_cases visible : c = ' '
  · rw [visible, blank]
    exact .blank after
  · exact .form visible (filled c) (unbroken c visible) after

theorem Respelled.refl (s : List Char) : Respelled s s := by
  induction s with
  | nil => exact .nil
  | cons c rest ih =>
    by_cases visible : c = ' '
    · exact visible ▸ .blank ih
    · have unbroken : ' ' ∉ [c] := fun blank => visible (List.mem_singleton.mp blank).symm
      exact .form visible (List.cons_ne_nil c []) unbroken ih

theorem Respelled.capital_cons (c : Char) {s t : List Char} (after : Respelled s t) :
    Respelled (c :: s) (capital c ++ t) :=
  .cons_of capital_blank capital_ne_nil (fun _ => capital_visible) c after

theorem respelled_capitals (s : List Char) : Respelled s (capitals s) := by
  induction s with
  | nil => exact .nil
  | cons c rest ih => exact ih.capital_cons c

theorem respelled_smallsAfter (before s : List Char) : Respelled s (smallsAfter before s) := by
  induction s generalizing before with
  | nil => exact .nil
  | cons c rest ih =>
    unfold smallsAfter
    by_cases sigma : c = '\u03A3'
    · rw [if_pos sigma]
      exact .form (by simp [sigma]) (List.cons_ne_nil _ _) (by split <;> decide) (ih _)
    · rw [if_neg sigma]
      exact .cons_of small_blank small_ne_nil (fun _ => small_visible) c (ih _)

theorem respelled_capitalized (s : List Char) : Respelled s (capitalized s) := by
  cases s with
  | nil => exact .nil
  | cons c rest => exact (Respelled.refl rest).capital_cons c

/-! ## Parts of a text -/

theorem capitals_append (s t : List Char) : capitals (s ++ t) = capitals s ++ capitals t :=
  List.flatMap_append

theorem capitals_cons_blank (t : List Char) : capitals (' ' :: t) = ' ' :: capitals t := by
  rw [capitals, List.flatMap_cons, capital_blank]
  rfl

/-- What stands behind a blank is not looked at. -/
theorem meetsCased_append_blank (s t : List Char) : meetsCased (s ++ ' ' :: t) = meetsCased s := by
  have unmarked : isIgnorable ' ' = false := by decide +kernel
  have uncased : isCased ' ' = false := by decide +kernel
  induction s with
  | nil => simp [meetsCased, unmarked, uncased]
  | cons c rest ih =>
    simp only [meetsCased, List.cons_append, List.dropWhile_cons] at ih ⊢
    cases isIgnorable c with
    | true => exact ih
    | false => rfl

theorem smallsAfter_behind_blank (before further s : List Char) :
    smallsAfter (before ++ ' ' :: further) s = smallsAfter before s := by
  induction s generalizing before with
  | nil => rfl
  | cons c rest ih =>
    simp only [smallsAfter, meetsCased_append_blank]
    rw [← List.cons_append, ih]

theorem smallsAfter_append_blank (before s t : List Char) :
    smallsAfter before (s ++ ' ' :: t) = smallsAfter before s ++ ' ' :: smalls t := by
  induction s generalizing before with
  | nil =>
    have first : smallsAfter before (' ' :: t) = ' ' :: smallsAfter (' ' :: before) t := by
      simp only [smallsAfter, small_blank]
      rfl
    rw [List.nil_append, first]
    exact congrArg _ (smallsAfter_behind_blank [] before t)
  | cons c rest ih =>
    simp only [List.cons_append, smallsAfter, meetsCased_append_blank, ih, List.append_assoc]

theorem smalls_append_blank (s t : List Char) :
    smalls (s ++ ' ' :: t) = smalls s ++ ' ' :: smalls t :=
  smallsAfter_append_blank [] s t

end Phrasebook.Text

namespace Phrasebook.Casing

open Text

theorem respelled (c : Casing) (s : String) : Respelled s.toList (c.apply s).toList := by
  cases c with
  | asWritten => exact .refl _
  | upper =>
    rw [apply, String.toList_ofList]
    exact respelled_capitals _
  | lower =>
    rw [apply, String.toList_ofList]
    exact respelled_smallsAfter [] _
  | capitalized =>
    rw [apply, String.toList_ofList]
    exact respelled_capitalized _

theorem apply_eq_empty {c : Casing} {s : String} : c.apply s = "" ↔ s = "" := by
  rw [← String.toList_eq_nil_iff, ← String.toList_eq_nil_iff]
  exact (c.respelled s).eq_nil_iff

end Phrasebook.Casing
