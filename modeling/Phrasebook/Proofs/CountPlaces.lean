import Phrasebook.Proofs.Rows
import Phrasebook.Proofs.Trailing

/-!
# Places of counts

A count is looked for in the whole line, behind a closing bracket that has an opening parenthesis
directly behind it, wherever it stands.

* `Text.Opens`: a text with such a place, and `exists_opens`: the first one;
* `prepare_append_plain`, `uncommented_of_cut`: what preparing a line changes in this;
* `Count.written_opened`, `written_behind`, `written_apart`, `written_eq_nil`: what is found at the
  places there are;
* `Count.plain_of_read`: a numeral holds neither brackets nor parentheses.
-/

namespace Phrasebook

namespace Text

variable {s t x bs : List Char} {c : Char}

/-! ## Brackets with a parenthesis behind -/

/-- The text holds a closing bracket with an opening parenthesis directly behind it. -/
def Opens (s : List Char) : Prop := [']', '('] <:+: s

instance (s : List Char) : Decidable (Opens s) := inferInstanceAs (Decidable ([']', '('] <:+: s))

theorem opens_cons : Opens (c :: s) ↔ (c = ']' ∧ s.head? = some '(') ∨ Opens s := by
  rw [Opens, List.infix_cons_iff, List.cons_prefix_cons, ← Opens]
  have front : ['('] <+: s ↔ s.head? = some '(' := by
    cases s <;> simp [eq_comm]
  rw [front, eq_comm]

theorem not_opens_nil : ¬ Opens [] := by decide

theorem opens_append (x y : List Char) : Opens (x ++ ']' :: '(' :: y) :=
  ⟨x, y, by simp⟩

theorem opens_concat (other : c ≠ '(') : Opens (s ++ [c]) ↔ Opens s := by
  rw [Opens, List.infix_concat_iff, ← Opens]
  refine or_iff_right fun ⟨front, same⟩ => other ?_
  have last := congrArg List.getLast? same
  rw [List.getLast?_append_of_ne_nil _ (List.cons_ne_nil _ _), List.getLast?_concat] at last
  exact (Option.some.inj last).symm

theorem not_opens_of_blank (blank : allBlank s = true) : ¬ Opens s := by
  rintro ⟨x, y, rfl⟩
  exact absurd (List.all_eq_true.mp blank ']' (by simp)) (by decide)

/-- The place where it does so first. -/
theorem exists_opens (h : Opens s) : ∃ x y, s = x ++ ']' :: '(' :: y ∧ ¬ Opens (x ++ [']']) := by
  induction s with
  | nil => exact absurd h not_opens_nil
  | cons c s ih =>
    by_cases here : c = ']' ∧ s.head? = some '('
    · obtain ⟨rfl, front⟩ := here
      obtain ⟨y, rfl⟩ := List.head?_eq_some_iff.mp front
      exact ⟨[], y, rfl, by decide⟩
    · obtain ⟨x, y, rfl, first⟩ := ih ((opens_cons.mp h).resolve_left here)
      refine ⟨c :: x, y, rfl, fun opens => ?_⟩
      rcases opens_cons.mp opens with ⟨bracket, front⟩ | opens
      · cases x with
        | nil => cases front
        | cons d x => exact here ⟨bracket, front⟩
      · exact first opens

/-- What stands in parentheses alone, with blanks around it, does not. -/
theorem not_opens_aside (blank : allBlank bs = true) (plain : '(' ∉ s) :
    ¬ Opens (bs ++ '(' :: s) := by
  rintro ⟨x, y, same⟩
  have visible : isBlank '(' = false := by decide
  have free : '(' ∉ bs := fun there => by
    rw [List.all_eq_true.mp blank _ there] at visible
    cases visible
  have parted : x ++ [']'] ++ '(' :: y = bs ++ '(' :: s := by simpa using same
  obtain ⟨rfl, -⟩ := (List.append_cons_inj_of_notMem free plain).mp parted.symm
  exact absurd (List.all_eq_true.mp blank ']' (by simp)) (by decide)

/-- What follows another character than the last one ends with the last one. -/
theorem exists_concat {y : List Char} {last : Char} (same : s ++ [last] = x ++ c :: y)
    (other : c ≠ last) : ∃ z, y = z ++ [last] := by
  rcases y.eq_nil_or_concat' with rfl | ⟨z, d, rfl⟩
  · exact absurd (List.append_inj_right' same rfl) (by simpa using other.symm)
  · rw [← List.cons_append, ← List.append_assoc] at same
    exact ⟨z, by rw [List.append_inj_right' same rfl]⟩

theorem splitAtMark_append_some {before after : List Char}
    (h : splitAtMark? ']' s = some (before, after)) (t : List Char) :
    splitAtMark? ']' (s ++ t) = some (before, after ++ t) := by
  fun_induction splitAtMark? ']' s generalizing before with
  | case1 => cases h
  | case2 c rest ih =>
    obtain ⟨parts, found, same⟩ := Option.map_eq_some_iff.mp h
    cases same
    rw [List.cons_append, List.cons_append, splitAtMark?, ih found]
    rfl
  | case3 rest alone =>
    cases h
    rw [List.cons_append, splitAtMark_cons fun same => absurd same (by decide), if_pos rfl]
  | case4 c rest alone passes ih =>
    obtain ⟨parts, found, same⟩ := Option.map_eq_some_iff.mp h
    cases same
    have unescaped : c ≠ '\\' := fun same => by
      rw [last_of_alone alone same] at found
      cases found
    rw [List.cons_append, splitAtMark_cons fun same => absurd same unescaped, if_neg passes,
      ih found]
    rfl

/-! ## Preparing a line -/

theorem opens_plainSemicolons (s : List Char) : Opens (plainSemicolons s) ↔ Opens s := by
  have front (t : List Char) : (plainSemicolons t).head? = some '(' ↔ t.head? = some '(' := by
    cases t with
    | nil => rfl
    | cons c t =>
      by_cases escape : c = '\\'
      · subst escape
        cases t with
        | nil => rfl
        | cons d t =>
          rw [plainSemicolons]
          split <;> simp
      · rw [plainSemicolons_cons fun same => absurd same escape]
        simp
  fun_induction plainSemicolons s with
  | case1 => rfl
  | case2 rest ih => simp [opens_cons, ih]
  | case3 c rest passes ih => simp [opens_cons, ih, front]
  | case4 c rest alone ih => simp [opens_cons, ih, front]

theorem splitAtMark_plainSemicolons (s : List Char) : splitAtMark? ']' (plainSemicolons s) =
    (splitAtMark? ']' s).map fun parts => (plainSemicolons parts.1, plainSemicolons parts.2) := by
  fun_induction plainSemicolons s with
  | case1 => rfl
  | case2 rest ih =>
    rw [splitAtMark_cons fun same => absurd same (by decide), if_neg (by decide), splitAtMark?, ih,
      Option.map_map, Option.map_map]
    congr 1
  | case3 c rest passes ih =>
    rw [splitAtMark?, splitAtMark?, ih, Option.map_map, Option.map_map]
    congr 1
    funext parts
    simp [plainSemicolons, passes]
  | case4 c rest alone ih =>
    by_cases escape : c = '\\'
    · obtain rfl := last_of_alone alone escape
      subst escape
      rfl
    · rw [splitAtMark_cons fun same => absurd same escape,
        splitAtMark_cons fun same => absurd same escape, ih]
      split
      · rfl
      · rw [Option.map_map, Option.map_map]
        congr 1
        funext parts
        exact Prod.ext (plainSemicolons_cons fun same => absurd same escape).symm rfl

/-- A text that holds no semicolon can follow a line without a comment. -/
theorem prepare_append_plain (uncommented : beforeComment? s = none) (plain : ';' ∉ t) :
    prepare (s ++ t) = prepare s ++ t := by
  induction t generalizing s with
  | nil => rw [List.append_nil, List.append_nil]
  | cons c t ih =>
    obtain ⟨other, later⟩ := not_or.mp (mt List.mem_cons.mpr plain)
    have longer : beforeComment? (s ++ [c]) = none := by
      rw [beforeComment_append (Ne.symm other), uncommented]
    rw [List.append_cons, ih longer later, prepare_of_uncommented longer,
      plainSemicolons_append (Ne.symm other), prepare_of_uncommented uncommented,
      ← List.append_cons]

/-- A comment would hide the only bracket that ends the block. -/
theorem uncommented_of_cut {before : List Char} (cut : splitAtMark? ']' s = some (before, []))
    (ends : splitAtMark? ']' (prepare s) ≠ none) : beforeComment? s = none := by
  obtain ⟨front, uncommented⟩ := kept_withoutComment s
  rw [prepare, splitAtMark_plainSemicolons, Ne, Option.map_eq_none_iff] at ends
  obtain ⟨⟨b, a⟩, found⟩ := Option.ne_none_iff_exists'.mp ends
  obtain ⟨rest, whole⟩ := front
  have longer := splitAtMark_append_some found rest
  rw [whole, cut] at longer
  have none : [] = a ++ rest := (Prod.mk.inj (Option.some.inj longer)).2
  rw [(List.append_eq_nil_iff.mp none.symm).2, List.append_nil] at whole
  rwa [whole] at uncommented

/-! ## Blanks on both sides -/

theorem exists_trim (s : List Char) :
    ∃ bs bs', allBlank bs = true ∧ allBlank bs' = true ∧ s = bs ++ (trim s ++ bs') := by
  obtain ⟨bs', blank, whole⟩ := exists_trimEnd (trimStart s)
  refine ⟨s.takeWhile isBlank, bs', List.all_takeWhile, blank, ?_⟩
  rw [trim, ← whole]
  exact (List.takeWhile_append_dropWhile).symm

/-! ## Numerals -/

theorem isDigit_of_digits? {n : Nat} (value : digits? s = some n) (there : c ∈ s) :
    c.isDigit = true := by
  unfold digits? at value
  split at value
  · cases value
  · next plain =>
    have digits : s.all Char.isDigit = true := by
      simpa using (not_or.mp (mt Bool.or_eq_true_iff.mpr plain)).2
    exact List.all_eq_true.mp digits c there

theorem signed_of_word64? {n : UInt64} (value : word64? s = some n) (there : c ∈ s) :
    c = '+' ∨ c.isDigit = true := by
  unfold word64? at value
  obtain ⟨m, value, -⟩ := Option.bind_eq_some_iff.mp value
  split at value
  · exact (List.mem_cons.mp there).imp_right (isDigit_of_digits? value)
  · exact .inr (isDigit_of_digits? value there)

/-- What starts and ends in parentheses is trimmed already. -/
theorem trim_parenthesized (s : List Char) : trim ('(' :: (s ++ [')'])) = '(' :: (s ++ [')']) := by
  refine (trim_eq_self_iff fun c last => ?_).mpr fun c front => ?_
  · rw [← List.cons_append, List.getLast?_concat] at last
    cases last
    decide
  · cases front
    decide

end Text

open Text

namespace Count

variable {s t x y l before after : List Char} {inside : Option (List Char)} {c : Char} {n : UInt64}

/-! ## What is found in a line -/

theorem written_skip (plain : ¬ (c = ']' ∧ s.head? = some '(')) :
    written none (c :: s) = written none s := by
  rw [written]
  rintro rest rfl rfl
  exact plain ⟨rfl, rfl⟩

theorem written_append (plain : ¬ Opens (s ++ t.take 1)) :
    written none (s ++ t) = written none t := by
  induction s with
  | nil => rfl
  | cons c s ih =>
    obtain ⟨here, later⟩ := not_or.mp (mt opens_cons.mpr plain)
    have front : (s ++ t).head? = (s ++ t.take 1).head? := by
      cases s <;> cases t <;> rfl
    rw [List.cons_append, written_skip (by rwa [front]), ih later]

theorem written_of_not_opens (plain : ¬ Opens s) : written none s = [] := by
  have whole := written_append (s := s) (t := []) (by simpa using plain)
  rwa [List.append_nil] at whole

/-- The number that is looked for starts at the first place. -/
theorem written_opened (first : ¬ Opens (x ++ [']'])) :
    written none (x ++ ']' :: '(' :: y) = written (some []) y := by
  rw [written_append first, written]

theorem written_some_ne_nil (closes : ')' ∈ s) : written (some l) s ≠ [] := by
  obtain ⟨front, rest, rfl, plain⟩ := List.eq_append_cons_of_mem closes
  rw [written_some plain]
  exact List.cons_ne_nil _ _

theorem written_some_eq_nil (plain : ')' ∉ s) : written (some l) s = [] := by
  induction s generalizing l with
  | nil => rfl
  | cons c s ih =>
    obtain ⟨other, later⟩ := not_or.mp (mt List.mem_cons.mpr plain)
    rw [written, if_neg (Ne.symm other), ih later]

/-- A number directly behind a block is found. -/
theorem written_behind (plain : ¬ Opens (before ++ [']'])) (free : ')' ∉ t) {bs : List Char}
    (blank : allBlank bs = true) :
    written none (before ++ [']'] ++ '(' :: (t ++ ')' :: bs)) = [t] := by
  rw [← List.append_cons, written_opened plain, written_some free,
    written_of_not_opens (not_opens_of_blank blank)]
  rfl

/-- A number behind a blank is not. -/
theorem written_apart (plain : ¬ Opens s) (blank : allBlank (c :: x) = true) (free : '(' ∉ t) :
    written none (s ++ (c :: x ++ '(' :: t)) = [] := by
  have other : c ≠ '(' := by
    rintro rfl
    exact absurd (List.all_eq_true.mp blank _ List.mem_cons_self) (by decide)
  rw [written_append ((opens_concat other).not.mpr plain),
    written_of_not_opens (not_opens_aside blank free)]

/-- Wherever a number could start and end, something is found. -/
theorem written_ne_nil (closes : ')' ∈ y) : written inside (x ++ ']' :: '(' :: y) ≠ [] := by
  induction x generalizing inside with
  | nil =>
    cases inside with
    | none => exact written_some_ne_nil closes
    | some l => exact written_some_ne_nil (by simp [closes])
  | cons c x ih =>
    cases inside with
    | some l => exact written_some_ne_nil (by simp [closes])
    | none =>
      by_cases opens : c = ']' ∧ (x ++ ']' :: '(' :: y).head? = some '('
      · obtain ⟨rfl, front⟩ := opens
        cases x with
        | nil => cases front
        | cons d x =>
          cases front
          exact written_some_ne_nil (by simp [closes])
      · rw [List.cons_append, written_skip opens]
        exact ih

theorem written_eq_nil :
    written none s = [] ↔ ∀ x y, s = x ++ ']' :: '(' :: y → ')' ∉ y := by
  constructor
  · rintro h x y rfl closes
    exact written_ne_nil closes h
  · intro unclosed
    by_cases opens : Opens s
    · obtain ⟨x, y, rfl, first⟩ := exists_opens opens
      rw [written_opened first, written_some_eq_nil (unclosed x y rfl)]
    · exact written_of_not_opens opens

theorem asked_eq_ok {line : List Char} : asked (.ofList line) = .ok (some n) ↔
    ∃ t, written none line = [t] ∧ read (.ofList t) = .ok n := by
  rw [asked, String.toList_ofList]
  cases written none line with
  | nil => simp [pure, Except.pure]
  | cons t others =>
    simp only [bind_eq_ok, List.cons.injEq]
    cases others with
    | nil => simp [pure, Except.pure]
    | cons u others => simp

/-- A numeral is made of digits, up to a sign and blanks. -/
theorem visible_of_read (h : read (.ofList t) = .ok n) (there : c ∈ t) :
    isBlank c = true ∨ c = '+' ∨ c.isDigit = true := by
  obtain ⟨bs, bs', blank, blank', whole⟩ := exists_trim t
  rw [whole] at there
  unfold read at h
  rw [String.toList_ofList] at h
  split at h
  · next m value =>
    rcases List.mem_append.mp there with leading | there
    · exact .inl (List.all_eq_true.mp blank c leading)
    · rcases List.mem_append.mp there with inner | trailing
      · exact .inr (signed_of_word64? value inner)
      · exact .inl (List.all_eq_true.mp blank' c trailing)
  · cases h

theorem plain_of_read (h : read (.ofList t) = .ok n) : ']' ∉ t ∧ '(' ∉ t ∧ ')' ∉ t := by
  refine ⟨?_, ?_, ?_⟩ <;>
  · intro there
    have visible := visible_of_read h there
    revert visible
    decide

end Count

end Phrasebook
