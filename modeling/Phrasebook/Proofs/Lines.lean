import Phrasebook.Proofs.Balanced
import Phrasebook.Template

/-!
# Lines of a template

* `lines_row`, `lines_end`: a text is cut at its line feeds, and `feedless_of_mem_lines`: nowhere
  else;
* `TemplateLine.text_read_subset`: what is left of a line is made of its characters;
* `TemplateLine.read_append_blanks`: blanks at the end of an indented line do not count;
* `seen`: the lines that are not blank, and `seen_trimEnd`: they are the same where the blanks at
  the end of the whole text were cut.
-/

namespace Phrasebook

namespace Text

variable {s t row rest before : List Char} {c : Char}

/-! ## Cutting -/

theorem go_row (h : '\n' ∉ row) :
    lines.go before (row ++ '\n' :: rest) =
      withoutReturn (before.reverse ++ row) :: lines rest := by
  induction row generalizing before with
  | nil => simp [lines.go, lines]
  | cons c row ih =>
    obtain ⟨other, free⟩ := not_or.mp (mt List.mem_cons.mpr h)
    rw [List.cons_append, lines.go, if_neg (Ne.symm other), ih free, List.reverse_cons,
      List.append_assoc, List.singleton_append]

theorem go_end (h : '\n' ∉ row) :
    lines.go before row = if before.reverse ++ row = [] then [] else [before.reverse ++ row] := by
  induction row generalizing before with
  | nil => simp [lines.go]
  | cons c row ih =>
    obtain ⟨other, free⟩ := not_or.mp (mt List.mem_cons.mpr h)
    rw [lines.go, if_neg (Ne.symm other), ih free, List.reverse_cons, List.append_assoc,
      List.singleton_append]

theorem lines_row (h : '\n' ∉ row) :
    lines (row ++ '\n' :: rest) = withoutReturn row :: lines rest :=
  go_row h

theorem lines_end (h : '\n' ∉ row) (filled : row ≠ []) : lines row = [row] := by
  rw [lines, go_end h]
  exact if_neg filled

/-- A line feed at the end adds no line to a text that ends in no blank. -/
theorem go_feed {last : Char} (ends : (before.reverse ++ s).getLast? = some last)
    (visible : isBlank last = false) : lines.go before (s ++ ['\n']) = lines.go before s := by
  induction s generalizing before with
  | nil =>
    rw [List.append_nil] at ends
    have filled : before.isEmpty = false := by
      cases before with
      | nil => cases ends
      | cons c before => rfl
    have other : last ≠ '\r' := by
      rintro rfl
      exact absurd visible (by decide)
    simp [lines.go, filled, withoutReturn, ends, other]
  | cons c s ih =>
    rw [List.cons_append, lines.go, lines.go]
    split
    · next feed =>
      have later : (([] : List Char).reverse ++ s).getLast? = some last := by
        cases s with
        | nil =>
          rw [feed, List.getLast?_concat] at ends
          cases ends
          exact absurd visible (by decide)
        | cons d s => simpa [List.getLast?_append, List.getLast?_cons] using ends
      rw [ih later]
    · exact ih (by simpa using ends)

theorem lines_feed {last : Char} (ends : s.getLast? = some last) (visible : isBlank last = false) :
    lines (s ++ ['\n']) = lines s :=
  go_feed ends visible

theorem mem_withoutReturn (h : c ∈ withoutReturn s) : c ∈ s := by
  unfold withoutReturn at h
  split at h
  · exact List.dropLast_subset s h
  · exact h

theorem feedless_of_mem_go {raw : List Char} (begun : '\n' ∉ before)
    (h : raw ∈ lines.go before s) : '\n' ∉ raw := by
  induction s generalizing before with
  | nil =>
    rw [lines.go] at h
    split at h
    · cases h
    · rw [List.mem_singleton.mp h]
      simpa using begun
  | cons c rest ih =>
    rw [lines.go] at h
    split at h
    · rcases List.mem_cons.mp h with rfl | later
      · exact fun there => begun (by simpa using mem_withoutReturn there)
      · exact ih List.not_mem_nil later
    · next other =>
      refine ih (fun there => ?_) h
      rcases List.mem_cons.mp there with same | there
      · exact other same.symm
      · exact begun there

theorem feedless_of_mem_lines {raw : List Char} (h : raw ∈ lines s) : '\n' ∉ raw :=
  feedless_of_mem_go List.not_mem_nil h

/-! ## What is left of a line -/

theorem mem_trimStart (h : c ∈ trimStart s) : c ∈ s := (List.dropWhile_suffix isBlank).subset h

theorem mem_trimEnd (h : c ∈ trimEnd s) : c ∈ s := (prefix_trimEnd s).subset h

theorem mem_trim (h : c ∈ trim s) : c ∈ s := mem_trimStart (mem_trimEnd h)

theorem prefix_beforeComment {kept : List Char} (h : beforeComment? s = some kept) :
    kept <+: s := by
  fun_induction beforeComment? s generalizing kept with
  | case1 => cases h
  | case2 c rest ih =>
    obtain ⟨inner, found, rfl⟩ := Option.map_eq_some_iff.mp h
    exact (List.prefix_cons_inj _).mpr ((List.prefix_cons_inj _).mpr (ih found))
  | case3 =>
    cases h
    exact List.nil_prefix
  | case4 c rest _ _ ih =>
    obtain ⟨inner, found, rfl⟩ := Option.map_eq_some_iff.mp h
    exact (List.prefix_cons_inj _).mpr (ih found)

theorem prefix_withoutComment (s : List Char) : withoutComment s <+: s := by
  unfold withoutComment
  split
  · next kept found => exact (prefix_trimEnd kept).trans (prefix_beforeComment found)
  · exact List.prefix_refl s

theorem mem_plainSemicolons (h : c ∈ plainSemicolons s) : c ∈ s := by
  fun_induction plainSemicolons s with
  | case1 => exact h
  | case2 rest ih => grind
  | case3 d rest _ ih => grind
  | case4 d rest _ ih => grind

theorem mem_prepare (h : c ∈ prepare s) : c ∈ s :=
  (prefix_withoutComment s).subset (mem_plainSemicolons h)

/-! ## Blanks at the end -/

theorem trimEnd_append (s t : List Char) :
    trimEnd (s ++ t) = if trimEnd t = [] then trimEnd s else s ++ trimEnd t := by
  induction s with
  | nil => split <;> simp_all [trimEnd]
  | cons c s ih =>
    rw [List.cons_append, trimEnd_cons, ih]
    split <;> simp_all [trimEnd_cons]

theorem beforeComment_cons (alone : c = '\\' → s = []) : beforeComment? (c :: s) =
    if c = ';' then some [] else (beforeComment? s).map (c :: ·) := by
  rw [beforeComment?]
  intro d rest same more
  simp [alone same] at more

theorem plainSemicolons_cons (alone : c = '\\' → s = []) :
    plainSemicolons (c :: s) = c :: plainSemicolons s := by
  rw [plainSemicolons]
  intro d rest same more
  simp [alone same] at more

theorem beforeComment_append (other : c ≠ ';') (s : List Char) :
    beforeComment? (s ++ [c]) = beforeComment? s := by
  fun_induction beforeComment? s with
  | case1 => simp [beforeComment?, other]
  | case2 d rest ih => rw [List.cons_append, List.cons_append, beforeComment?, ih]
  | case3 => simp [beforeComment?]
  | case4 d rest alone passes ih =>
    by_cases same : d = '\\'
    · obtain rfl := last_of_alone alone same
      subst same
      simp [beforeComment?]
    · rw [List.cons_append, beforeComment_cons fun h => absurd h same, if_neg passes, ih]

theorem plainSemicolons_append (other : c ≠ ';') (s : List Char) :
    plainSemicolons (s ++ [c]) = plainSemicolons s ++ [c] := by
  fun_induction plainSemicolons s with
  | case1 => simp [plainSemicolons]
  | case2 rest ih => simp [plainSemicolons, ih]
  | case3 d rest passes ih => simp [plainSemicolons, passes, ih]
  | case4 d rest alone ih =>
    by_cases same : d = '\\'
    · obtain rfl := last_of_alone alone same
      subst same
      simp [plainSemicolons, other]
    · rw [List.cons_append, plainSemicolons_cons fun h => absurd h same, ih, List.cons_append]

theorem prepare_append (other : c ≠ ';') (s : List Char) :
    prepare (s ++ [c]) = prepare s ∨ prepare (s ++ [c]) = prepare s ++ [c] := by
  unfold prepare withoutComment
  rw [beforeComment_append other]
  cases beforeComment? s with
  | some kept => exact .inl rfl
  | none => exact .inr (plainSemicolons_append other s)

theorem trim_append (blank : isBlank c = true) (s : List Char) : trim (s ++ [c]) = trim s := by
  induction s with
  | nil =>
    rw [List.nil_append, trim, trimStart_cons_blank blank]
    rfl
  | cons d s ih =>
    cases visible : isBlank d with
    | true =>
      rw [trim, List.cons_append, trimStart_cons_blank visible, ← trim, ih, trim, trim,
        trimStart_cons_blank visible]
    | false =>
      rw [trim, List.cons_append, trimStart_cons visible, ← List.cons_append,
        trimEnd_append_blank blank, trim, trimStart_cons visible]

theorem trim_eq_nil : trim s = [] ↔ allBlank s = true := by
  induction s with
  | nil => exact ⟨fun _ => rfl, fun _ => rfl⟩
  | cons c s ih =>
    cases blank : isBlank c with
    | true =>
      rw [trim, trimStart_cons_blank blank, ← trim, ih]
      simp [allBlank, blank]
    | false =>
      rw [trim, trimStart_cons blank, trimEnd_cons, if_neg (by simp [blank])]
      simp [allBlank, blank]

/-- An indented row, or one that ends in no blank, and in any case on one line. -/
structure Steady (row : List Char) : Prop where
  feedless : '\n' ∉ row
  ends : row.head? = some ' ' ∨ ∃ c, row.getLast? = some c ∧ isBlank c = false

end Text

namespace TemplateLine

open Text

variable {raw s t bs row : List Char} {c : Char}

/-- What a line leaves to be read. -/
def text : TemplateLine → List Char
  | blank => []
  | rule text => text
  | inclusion target => target
  | declaration text => text
  | unknown text => text

theorem text_read_subset (raw : List Char) : (read raw).text ⊆ raw := by
  intro c hc
  refine mem_prepare ?_
  unfold read at hc
  dsimp only at hc
  split at hc
  · cases hc
  · split at hc
    · cases hc
    · next d rest same =>
      split at hc
      · exact mem_trim hc
      · split at hc
        · rw [same]
          exact List.mem_cons_of_mem _ (mem_trim hc)
        · split at hc <;> exact hc

theorem read_indented (front : raw.head? = some ' ') : read raw =
    if trim (prepare raw) = [] then .blank else .rule (trim (prepare raw)) := by
  have blank : isBlank ' ' = true := by decide
  obtain ⟨s, rfl⟩ := List.head?_eq_some_iff.mp front
  have indented : prepare (' ' :: s) = [] ∨ ∃ rest, prepare (' ' :: s) = ' ' :: rest := by
    unfold prepare
    cases kept : withoutComment (' ' :: s) with
    | nil => exact .inl rfl
    | cons d rest =>
      have whole := prefix_withoutComment (' ' :: s)
      rw [kept] at whole
      obtain ⟨rfl, -⟩ := (List.cons_prefix_cons).mp whole
      exact .inr ⟨_, plainSemicolons_cons fun same => absurd same (by decide)⟩
  unfold read
  simp only [trim_eq_nil]
  rcases indented with none | ⟨rest, some⟩
  · simp [none, allBlank]
  · rw [some]
    simp only [blank, if_true]

theorem read_append (front : raw.head? = some ' ') (blank : isBlank c = true) :
    read (raw ++ [c]) = read raw := by
  have other : c ≠ ';' := by
    rintro rfl
    exact absurd blank (by decide)
  have same : trim (prepare (raw ++ [c])) = trim (prepare raw) := by
    rcases prepare_append other raw with same | more
    · rw [same]
    · rw [more, trim_append blank]
  have front' : (raw ++ [c]).head? = some ' ' := by
    obtain ⟨s, rfl⟩ := List.head?_eq_some_iff.mp front
    rfl
  rw [read_indented front, read_indented front', same]

/-- Blanks at the end of an indented line do not count. -/
theorem read_append_blanks (front : raw.head? = some ' ') (blanks : ∀ c ∈ bs, isBlank c = true) :
    read (raw ++ bs) = read raw := by
  induction bs generalizing raw with
  | nil => rw [List.append_nil]
  | cons c bs ih =>
    have front' : (raw ++ [c]).head? = some ' ' := by
      obtain ⟨s, rfl⟩ := List.head?_eq_some_iff.mp front
      rfl
    rw [← List.singleton_append, ← List.append_assoc,
      ih front' fun d hd => blanks d (List.mem_cons_of_mem _ hd),
      read_append front (blanks c List.mem_cons_self)]

/-- The lines that are not blank, by what they are for. -/
def seen (raws : List (List Char)) : List TemplateLine := (raws.map read).filter (· ≠ .blank)

theorem seen_cons (raw : List Char) (raws : List (List Char)) :
    seen (raw :: raws) = seen [raw] ++ seen raws := by
  rw [seen, List.map_cons, ← List.singleton_append, List.filter_append]
  rfl

theorem seen_eq (h : read s = read t) : seen [s] = seen [t] := by
  simp [seen, h]

theorem seen_blank (h : read s = .blank) : seen [s] = [] := by
  simp [seen, h]

theorem seen_visible {line : TemplateLine} (h : read s = line) (visible : line ≠ .blank)
    (raws : List (List Char)) : seen (s :: raws) = line :: seen raws := by
  simp [seen, h, visible]

theorem trimEnd_blanks (s : List Char) :
    ∃ bs, s = trimEnd s ++ bs ∧ ∀ c ∈ bs, isBlank c = true := by
  refine ⟨(s.reverse.takeWhile isBlank).reverse, ?_, fun c hc => ?_⟩
  · rw [trimEnd, ← List.reverse_append, List.takeWhile_append_dropWhile, List.reverse_reverse]
  · exact (List.all_eq_true.mp List.all_takeWhile) c (List.mem_reverse.mp hc)

theorem seen_withoutReturn (steady : Steady row) : seen [withoutReturn row] = seen [row] := by
  unfold withoutReturn
  split
  · next last =>
    have blank : isBlank '\r' = true := by decide
    obtain ⟨front, rfl⟩ := List.getLast?_eq_some_iff.mp last
    rw [List.dropLast_concat]
    rcases steady.ends with indented | ⟨c, visible, other⟩
    · have indented' : front.head? = some ' ' := by
        cases front with
        | nil => cases indented
        | cons d front => exact indented
      exact seen_eq (read_append indented' blank).symm
    · rw [last] at visible
      cases visible
      exact absurd blank (by simp [other])
  · rfl

theorem seen_lines_trimEnd (steady : Steady row) : seen (lines (trimEnd row)) = seen [row] := by
  have free : '\n' ∉ trimEnd row := fun there => steady.feedless (mem_trimEnd there)
  rcases steady.ends with indented | ⟨c, last, visible⟩
  · obtain ⟨bs, whole, blanks⟩ := trimEnd_blanks row
    cases kept : trimEnd row with
    | nil =>
      -- nothing but blanks: the row is a blank one, and there is no line of it
      obtain ⟨s, rfl⟩ := List.head?_eq_some_iff.mp indented
      rw [kept, List.nil_append] at whole
      have blanks' : ∀ c ∈ s, isBlank c = true :=
        fun c hc => blanks c (whole ▸ List.mem_cons_of_mem _ hc)
      have front : [' '].head? = some ' ' := rfl
      have blank : read (' ' :: s) = .blank := (read_append_blanks front blanks').trans rfl
      rw [seen_blank blank]
      rfl
    | cons d rest =>
      rw [lines_end (kept ▸ free) (List.cons_ne_nil _ _)]
      rw [kept] at whole
      have front : (d :: rest).head? = some ' ' := by rwa [whole] at indented
      rw [whole, seen_eq (read_append_blanks front blanks)]
  · have same : trimEnd row = row := by
      refine trimEnd_eq_self fun d hd => ?_
      rw [last] at hd
      cases hd
      exact visible
    have filled : row ≠ [] := by
      rintro rfl
      cases last
    rw [same, lines_end steady.feedless filled]

/-- The same lines are seen where the blanks at the end of the text were cut. -/
theorem seen_trimEnd {rows : List (List Char)} (steady : ∀ row ∈ rows, Steady row) :
    seen (lines (trimEnd (rows.flatMap (· ++ ['\n'])))) = seen rows := by
  induction rows with
  | nil => rfl
  | cons row rest ih =>
    have first := steady row List.mem_cons_self
    have others := ih fun row hr => steady row (List.mem_cons_of_mem _ hr)
    rw [seen_cons, List.flatMap_cons, trimEnd_append]
    split
    · next none =>
      rw [none] at others
      rw [trimEnd_append_blank (by decide), seen_lines_trimEnd first, ← others]
      simp [seen, lines, lines.go]
    · rw [List.append_assoc, List.singleton_append, lines_row first.feedless, seen_cons,
        seen_withoutReturn first, others]

theorem seen_feed (ends : ∀ c ∈ s.getLast?, isBlank c = false) :
    seen (lines (s ++ ['\n'])) = seen (lines s) := by
  cases last : s.getLast? with
  | none =>
    rw [List.getLast?_eq_none_iff.mp last]
    rfl
  | some c => rw [lines_feed last (ends c last)]

end TemplateLine
end Phrasebook
