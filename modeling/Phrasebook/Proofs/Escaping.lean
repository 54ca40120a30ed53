import Phrasebook.Text.Escape

/-!
# Escaped text

What was escaped is read back as it was, when backslashes are among the characters escaped. Blanks
are not among them, so that they can be trimmed before or after.

* `unescape_escape`, `trim_escape`: what becomes of escaped text;
* `Prepared`: text that preparing a line turns into another, whatever stands after it. Where it
  differs is that a semicolon is no longer escaped (`prepared_escape`).
-/

namespace Phrasebook.Text

variable {special s t : List Char} {c : Char}

theorem escape_cons_of_mem (h : c ∈ special) (s : List Char) :
    escape special (c :: s) = '\\' :: c :: escape special s := by
  simp [escape, h]

theorem escape_cons_of_not_mem (h : c ∉ special) (s : List Char) :
    escape special (c :: s) = c :: escape special s := by
  simp [escape, h]

theorem escape_eq_self (h : ∀ c ∈ s, c ∉ special) : escape special s = s := by
  induction s with
  | nil => rfl
  | cons c rest ih =>
    have plain := h c List.mem_cons_self
    rw [escape_cons_of_not_mem plain, ih fun c hc => h c (List.mem_cons_of_mem _ hc)]

theorem unescape_cons (h : c ≠ '\\') (s : List Char) : unescape (c :: s) = c :: unescape s := by
  rw [unescape.eq_def]
  split
  · next h => cases h
  · next h' => cases h'; exact absurd rfl h
  · next h => cases h; rfl

theorem unescape_escape (marked : '\\' ∈ special) (s : List Char) :
    unescape (escape special s) = s := by
  induction s with
  | nil => rfl
  | cons c rest ih =>
    by_cases known : c ∈ special
    · rw [escape_cons_of_mem known, unescape, ih]
    · have other : c ≠ '\\' := fun same => known (same ▸ marked)
      rw [escape_cons_of_not_mem known, unescape_cons other, ih]

/-! ## Trimming -/

theorem trimStart_cons_blank (h : isBlank c = true) (s : List Char) :
    trimStart (c :: s) = trimStart s := by
  rw [trimStart, List.dropWhile_cons_of_pos h]
  rfl

theorem trimStart_cons (h : isBlank c = false) (s : List Char) : trimStart (c :: s) = c :: s := by
  rw [trimStart, List.dropWhile_cons_of_neg (by simp [h])]

theorem trimEnd_cons (c : Char) (s : List Char) :
    trimEnd (c :: s) = if trimEnd s = [] ∧ isBlank c = true then [] else c :: trimEnd s := by
  have blank : trimEnd s = [] ↔ (s.reverse.dropWhile isBlank).isEmpty = true := by
    simp [trimEnd]
  rw [trimEnd, List.reverse_cons, List.dropWhile_append]
  by_cases none : trimEnd s = []
  · rw [if_pos (blank.mp none), none]
    cases h : isBlank c with
    | false => simp [h]
    | true => simp [h]
  · rw [if_neg (mt blank.mpr none), if_neg (fun h => none h.1), List.reverse_append]
    rfl

theorem trimEnd_append_blank (blank : isBlank c = true) (s : List Char) :
    trimEnd (s ++ [c]) = trimEnd s := by
  rw [trimEnd, List.reverse_append, List.reverse_singleton, List.singleton_append,
    List.dropWhile_cons_of_pos blank, trimEnd]

theorem trimEnd_eq_self (h : ∀ c ∈ s.getLast?, isBlank c = false) : trimEnd s = s := by
  rw [← List.head?_reverse] at h
  rw [trimEnd]
  cases back : s.reverse with
  | nil => simpa using back
  | cons c rest =>
    have visible := h c (by rw [back]; rfl)
    rw [List.dropWhile_cons_of_neg (by simp [visible]), ← back, List.reverse_reverse]

theorem prefix_trimEnd (s : List Char) : trimEnd s <+: s := by
  have suffix := List.dropWhile_suffix isBlank (l := s.reverse)
  rwa [← List.reverse_prefix, List.reverse_reverse] at suffix

theorem getLast?_trimEnd (s : List Char) : ∀ c ∈ (trimEnd s).getLast?, isBlank c = false := by
  intro c last
  have front := List.head?_dropWhile_not isBlank s.reverse
  rw [trimEnd, List.getLast?_reverse] at last
  rwa [Option.mem_def.mp last] at front

theorem getLast?_unescape (s : List Char) : (unescape s).getLast? = s.getLast? := by
  fun_induction unescape s with
  | case1 => rfl
  | case2 c rest ih => cases rest <;> simp_all [List.getLast?_cons]
  | case3 c rest _ ih => simp [List.getLast?_cons, ih]

theorem getLast?_escape (special s : List Char) :
    (escape special s).getLast? = s.getLast? := by
  induction s with
  | nil => rfl
  | cons c rest ih =>
    by_cases known : c ∈ special
    · simp [escape_cons_of_mem known, List.getLast?_cons, ih]
    · simp [escape_cons_of_not_mem known, List.getLast?_cons, ih]

/-- Text that ends in no blank is left by trimming just when it starts with none. -/
theorem trim_eq_self_iff (ends : ∀ c ∈ s.getLast?, isBlank c = false) :
    trim s = s ↔ ∀ c ∈ s.head?, isBlank c = false := by
  cases s with
  | nil => simp [trim, trimStart, trimEnd]
  | cons c rest =>
    cases blank : isBlank c with
    | false => simp [trim, trimStart_cons blank, trimEnd_eq_self ends, blank]
    | true =>
      have shorter := trim_length rest
      rw [trim, trimStart_cons_blank blank, ← trim]
      constructor
      · intro same
        have longer := congrArg List.length same
        rw [List.length_cons] at longer
        omega
      · intro visible
        rw [visible c rfl] at blank
        cases blank

theorem trimStart_escape (kept : ∀ c ∈ special, isBlank c = false) (s : List Char) :
    trimStart (escape special s) = escape special (trimStart s) := by
  induction s with
  | nil => rfl
  | cons c rest ih =>
    by_cases known : c ∈ special
    · rw [escape_cons_of_mem known, trimStart_cons (by decide), trimStart_cons (kept c known),
        escape_cons_of_mem known]
    · rw [escape_cons_of_not_mem known]
      cases blank : isBlank c with
      | true => rw [trimStart_cons_blank blank, trimStart_cons_blank blank, ih]
      | false => rw [trimStart_cons blank, trimStart_cons blank, escape_cons_of_not_mem known]

theorem escape_eq_nil : escape special s = [] ↔ s = [] := by
  cases s with
  | nil => simp [escape]
  | cons c rest =>
    by_cases known : c ∈ special
    · simp [escape_cons_of_mem known]
    · simp [escape_cons_of_not_mem known]

theorem trimEnd_escape (kept : ∀ c ∈ special, isBlank c = false) (s : List Char) :
    trimEnd (escape special s) = escape special (trimEnd s) := by
  induction s with
  | nil => rfl
  | cons c rest ih =>
    by_cases known : c ∈ special
    · have visible := kept c known
      rw [escape_cons_of_mem known, trimEnd_cons, trimEnd_cons, trimEnd_cons, ih,
        if_neg (c := trimEnd rest = [] ∧ isBlank c = true) (by simp [visible]),
        escape_cons_of_mem known]
      simp [visible]
    · simp only [escape_cons_of_not_mem known, trimEnd_cons, ih, escape_eq_nil]
      split
      · rfl
      · rw [escape_cons_of_not_mem known]

theorem trim_escape (kept : ∀ c ∈ special, isBlank c = false) (s : List Char) :
    trim (escape special s) = escape special (trim s) := by
  rw [trim, trimStart_escape kept, trimEnd_escape kept, trim]

/-! ## Preparing a line -/

/-- The text holds no comment, and preparing it gives the other one. -/
structure Prepared (s t : List Char) : Prop where
  uncommented : ∀ rest, beforeComment? (s ++ rest) = (beforeComment? rest).map (s ++ ·)
  plain : ∀ rest, plainSemicolons (s ++ rest) = t ++ plainSemicolons rest

theorem Prepared.nil : Prepared [] [] :=
  ⟨fun rest => by simp, fun _ => rfl⟩

theorem Prepared.append {s' t' : List Char} (first : Prepared s t) (second : Prepared s' t') :
    Prepared (s ++ s') (t ++ t') := by
  constructor
  · intro rest
    rw [List.append_assoc, first.uncommented, second.uncommented, Option.map_map]
    congr 1
    funext kept
    exact (List.append_assoc s s' kept).symm
  · intro rest
    rw [List.append_assoc, first.plain, second.plain, List.append_assoc]

theorem prepared_singleton (unescaped : c ≠ '\\') (open' : c ≠ ';') : Prepared [c] [c] := by
  constructor
  · intro rest
    rw [List.singleton_append, beforeComment?.eq_def]
    split
    · next h => cases h
    · next h => cases h; exact absurd rfl unescaped
    · next h =>
      cases h
      rw [if_neg open']
      rfl
  · intro rest
    rw [List.singleton_append, plainSemicolons.eq_def]
    split
    · next h => cases h
    · next h => cases h; exact absurd rfl unescaped
    · next h => cases h; rfl

theorem prepared_escaped (c : Char) : Prepared ['\\', c] (if c = ';' then [c] else ['\\', c]) := by
  constructor
  · intro rest
    rw [List.cons_append, List.singleton_append, beforeComment?]
    rfl
  · intro rest
    rw [List.cons_append, List.singleton_append, plainSemicolons]
    split <;> simp_all

/-- Preparing a line takes back the escapes of semicolons, and no others. -/
theorem prepared_escape {left : List Char} (marked : '\\' ∈ special)
    (semicolons : ∀ c, c ∈ special ↔ c = ';' ∨ c ∈ left) (plain : ';' ∉ left) (s : List Char) :
    Prepared (escape special s) (escape left s) := by
  induction s with
  | nil => exact .nil
  | cons c rest ih =>
    by_cases known : c ∈ special
    · have pair := prepared_escaped c
      rw [escape_cons_of_mem known]
      by_cases semicolon : c = ';'
      · rw [if_pos semicolon] at pair
        rw [escape_cons_of_not_mem (semicolon ▸ plain)]
        exact pair.append ih
      · rw [if_neg semicolon] at pair
        rw [escape_cons_of_mem (((semicolons c).mp known).resolve_left semicolon)]
        exact pair.append ih
    · rw [escape_cons_of_not_mem known,
        escape_cons_of_not_mem fun h => known ((semicolons c).mpr (.inr h))]
      have unescaped : c ≠ '\\' := fun same => known (same ▸ marked)
      have open' : c ≠ ';' := fun same => known ((semicolons c).mpr (.inl same))
      exact (prepared_singleton unescaped open').append ih

theorem prepare_eq (h : Prepared s t) : prepare s = t := by
  have none := h.uncommented []
  have plain := h.plain []
  rw [List.append_nil] at none plain
  simp only [prepare, withoutComment, none, beforeComment?, Option.map_none, plain, plainSemicolons,
    List.append_nil]

end Phrasebook.Text
