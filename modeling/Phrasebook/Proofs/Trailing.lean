import Phrasebook.Proofs.Declared

/-!
# Ends of lines

Blanks at the end of a line do not count, and neither does a comment behind it: the line is read as
it would be without them. Only errors may differ, in the text of the line that they quote.

* `trimEnd_prepare_append_blanks`, `trimEnd_prepare_append_aside`: what preparing leaves, up to
  blanks at the end;
* `TemplateLine.alike_read`: what a line is for depends on nothing else;
* `Error.unquoted`, `Declaration.read_alike`: nor does what it declares.
-/

namespace Phrasebook

namespace Text

variable {s t bs kept : List Char} {c mark : Char}

/-- Nothing, or blanks with a comment behind them. -/
def Aside (s : List Char) : Prop :=
  s = [] ∨ ∃ blanks c comment, allBlank blanks = true ∧ isBlank c = true ∧
    s = blanks ++ c :: ';' :: comment

theorem append_blanks {α : Type} {f : List Char → α}
    (step : ∀ s c, isBlank c = true → f (s ++ [c]) = f s) (blank : allBlank bs = true)
    (s : List Char) : f (s ++ bs) = f s := by
  induction bs generalizing s with
  | nil => rw [List.append_nil]
  | cons c bs ih =>
    obtain ⟨first, later⟩ : isBlank c = true ∧ allBlank bs = true := by simpa [allBlank] using blank
    rw [List.append_cons, ih later, step s c first]

theorem ne_of_isBlank (blank : isBlank c = true) : c ≠ ';' ∧ c ≠ '\\' ∧ c ≠ ']' := by
  refine ⟨?_, ?_, ?_⟩ <;>
  · rintro rfl
    exact absurd blank (by decide)

/-! ## Trimming -/

theorem trimEnd_append_blanks (blank : allBlank bs = true) (s : List Char) :
    trimEnd (s ++ bs) = trimEnd s :=
  append_blanks (fun s _ blank => trimEnd_append_blank blank s) blank s

theorem trim_append_blanks (blank : allBlank bs = true) (s : List Char) :
    trim (s ++ bs) = trim s :=
  append_blanks (fun s _ blank => trim_append blank s) blank s

theorem exists_trimEnd (s : List Char) : ∃ bs, allBlank bs = true ∧ s = trimEnd s ++ bs := by
  obtain ⟨bs, whole, blanks⟩ := TemplateLine.trimEnd_blanks s
  exact ⟨bs, List.all_eq_true.mpr blanks, whole⟩

theorem trim_trimEnd (s : List Char) : trim (trimEnd s) = trim s := by
  obtain ⟨bs, blank, whole⟩ := exists_trimEnd s
  calc trim (trimEnd s) = trim (trimEnd s ++ bs) := (trim_append_blanks blank _).symm
    _ = trim s := by rw [← whole]

theorem trimEnd_eq_nil : trimEnd s = [] ↔ allBlank s = true := by
  constructor
  · intro none
    rw [← trim_eq_nil, ← trim_trimEnd, none]
    rfl
  · intro blank
    exact trimEnd_append_blanks blank []

/-! ## Preparing -/

theorem beforeComment_append_blanks (blank : allBlank bs = true) (s : List Char) :
    beforeComment? (s ++ bs) = beforeComment? s :=
  append_blanks (fun s _ blank => beforeComment_append (ne_of_isBlank blank).1 s) blank s

theorem trimEnd_prepare_append_blanks (blank : allBlank bs = true) (s : List Char) :
    trimEnd (prepare (s ++ bs)) = trimEnd (prepare s) := by
  refine append_blanks (f := fun s => trimEnd (prepare s)) (fun s c blank => ?_) blank s
  rcases prepare_append (ne_of_isBlank blank).1 s with same | more
  · rw [same]
  · rw [more, trimEnd_append_blank blank]

theorem beforeComment_semicolon (t : List Char) : beforeComment? (';' :: t) = some [] := by
  rw [beforeComment_cons fun h => absurd h (by decide), if_pos rfl]

theorem beforeComment_append_some (found : beforeComment? s = some kept) (t : List Char) :
    beforeComment? (s ++ t) = some kept := by
  fun_induction beforeComment? s generalizing kept with
  | case1 => cases found
  | case2 c rest ih =>
    obtain ⟨inner, within, rfl⟩ := Option.map_eq_some_iff.mp found
    rw [List.cons_append, List.cons_append, beforeComment?, ih within]
    rfl
  | case3 rest =>
    cases found
    exact beforeComment_semicolon (rest ++ t)
  | case4 c rest alone passes ih =>
    obtain ⟨inner, within, rfl⟩ := Option.map_eq_some_iff.mp found
    by_cases same : c = '\\'
    · obtain rfl := last_of_alone alone same
      cases within
    · rw [List.cons_append, beforeComment_cons fun h => absurd h same, if_neg passes, ih within]
      rfl

/-- A comment may start behind a blank: a backslash at the end of the line makes the blank literal,
and not the semicolon. -/
theorem beforeComment_append_comment (uncommented : beforeComment? s = none)
    (blank : isBlank c = true) (t : List Char) :
    beforeComment? (s ++ c :: ';' :: t) = some (s ++ [c]) := by
  obtain ⟨passes, plain, -⟩ := ne_of_isBlank blank
  fun_induction beforeComment? s with
  | case1 =>
    rw [List.nil_append, beforeComment_cons fun h => absurd h plain, if_neg passes,
      beforeComment_semicolon]
    rfl
  | case2 d rest ih =>
    rw [Option.map_eq_none_iff] at uncommented
    rw [List.cons_append, List.cons_append, beforeComment?, ih uncommented]
    rfl
  | case3 => cases uncommented
  | case4 d rest alone other ih =>
    rw [Option.map_eq_none_iff] at uncommented
    by_cases same : d = '\\'
    · obtain rfl := last_of_alone alone same
      subst same
      rw [List.cons_append, List.nil_append, beforeComment?, beforeComment_semicolon]
      rfl
    · rw [List.cons_append, beforeComment_cons fun h => absurd h same, if_neg other, ih uncommented]
      rfl

theorem prepare_of_uncommented (uncommented : beforeComment? s = none) :
    prepare s = plainSemicolons s := by
  rw [prepare, withoutComment, uncommented]

theorem trimEnd_prepare_append_aside (aside : Aside t) (s : List Char) :
    trimEnd (prepare (s ++ t)) = trimEnd (prepare s) := by
  rcases aside with rfl | ⟨blanks, c, comment, blank, last, rfl⟩
  · rw [List.append_nil]
  · cases found : beforeComment? s with
    | some kept =>
      rw [prepare, prepare, withoutComment, withoutComment, beforeComment_append_some found, found]
    | none =>
      obtain ⟨bs, blank', whole⟩ := exists_trimEnd s
      have trimmed : beforeComment? (trimEnd s) = none := by
        rw [← beforeComment_append_blanks blank', ← whole, found]
      have longer : beforeComment? (s ++ blanks) = none := by
        rw [beforeComment_append_blanks blank, found]
      calc trimEnd (prepare (s ++ (blanks ++ c :: ';' :: comment)))
          = trimEnd (plainSemicolons (trimEnd (s ++ blanks ++ [c]))) := by
            rw [prepare, withoutComment, ← List.append_assoc,
              beforeComment_append_comment longer last]
        _ = trimEnd (prepare (trimEnd s)) := by
            rw [trimEnd_append_blank last, trimEnd_append_blanks blank,
              prepare_of_uncommented trimmed]
        _ = trimEnd (prepare (trimEnd s ++ bs)) := (trimEnd_prepare_append_blanks blank' _).symm
        _ = trimEnd (prepare s) := by rw [← whole]

end Text

namespace TemplateLine

open Text

/-- The line without the blanks at its end. What is left of it elsewhere is trimmed already. -/
def trimmed : TemplateLine → TemplateLine
  | declaration text => declaration (trimEnd text)
  | unknown text => unknown (trimEnd text)
  | line => line

/-- What a line is for, from what preparing leaves of it up to blanks at the end. -/
def ofTrimmed : List Char → TemplateLine
  | [] => blank
  | c :: rest =>
    if isBlank c then rule (trim (c :: rest))
    else if c = '|' then inclusion (trim rest)
    else if (Kind.ofSigil? c).isSome then declaration (c :: rest)
    else unknown (c :: rest)

theorem trimmed_read_eq (raw : List Char) :
    (read raw).trimmed = ofTrimmed (trimEnd (prepare raw)) := by
  unfold read
  dsimp only
  split
  · next none =>
    rw [trimEnd_eq_nil.mpr none]
    rfl
  · next visible =>
    split
    · next none =>
      rw [none] at visible
      exact absurd rfl visible
    · next c rest whole =>
      have kept : trimEnd (c :: rest) = c :: trimEnd rest := by
        rw [trimEnd_cons, if_neg]
        rintro ⟨none, blank⟩
        refine visible ?_
        rw [whole, ← trimEnd_eq_nil, trimEnd_cons, if_pos ⟨none, blank⟩]
      have trimmed_whole : trim (c :: trimEnd rest) = trim (c :: rest) := by
        rw [← kept, trim_trimEnd]
      rw [whole, kept, ofTrimmed, trimmed_whole, trim_trimEnd, ← kept]
      split
      · rfl
      · split
        · rfl
        · split <;> rfl

/-- Lines that are for the same, and read the same up to blanks at their ends. -/
inductive Alike : TemplateLine → TemplateLine → Prop
  | blank : Alike blank blank
  | rule (text) : Alike (rule text) (rule text)
  | inclusion (target) : Alike (inclusion target) (inclusion target)
  | declaration {text text'} (same : trimEnd text = trimEnd text') :
      Alike (declaration text) (declaration text')
  | unknown (text text') : Alike (unknown text) (unknown text')

theorem Alike.of_trimmed {line line' : TemplateLine} (same : line.trimmed = line'.trimmed) :
    Alike line line' := by
  cases line with
  | blank =>
    cases line' <;> cases same
    exact .blank
  | rule text =>
    cases line' <;> cases same
    exact .rule text
  | inclusion target =>
    cases line' <;> cases same
    exact .inclusion target
  | declaration text =>
    cases line' with
    | declaration text' => exact .declaration (TemplateLine.declaration.inj same)
    | _ => cases same
  | unknown text =>
    cases line' with
    | unknown text' => exact .unknown text text'
    | _ => cases same

theorem alike_read {raw raw' : List Char} (same : trimEnd (prepare raw) = trimEnd (prepare raw')) :
    Alike (read raw) (read raw') :=
  .of_trimmed (by rw [trimmed_read_eq, trimmed_read_eq, same])

end TemplateLine

/-! ## Declarations -/

namespace Error

/-- The error without the text of the line that it quotes. -/
def unquoted : Error → Error
  | malformed _ fault => malformed "" fault
  | badLine _ fault => badLine "" fault
  | atLine origin line cause => atLine origin line cause.unquoted
  | e => e

theorem unquoted_locate (origin : String) (line : Nat) (e : Error) :
    (e.locate origin line).unquoted = e.unquoted.locate origin line := by
  cases e <;> rfl

theorem root_unquoted (e : Error) : e.unquoted.root = e.root.unquoted := by
  induction e with
  | atLine origin line cause ih => exact ih
  | _ => rfl

end Error

namespace Text

theorem splitAtMark_cons (alone : c = '\\' → s = []) : splitAtMark? mark (c :: s) =
    if c = mark then some ([], s)
    else (splitAtMark? mark s).map fun parts => (c :: parts.1, parts.2) := by
  rw [splitAtMark?]
  intro d rest same more
  simp [alone same] at more

theorem splitAtMark_append (other : c ≠ ']') (s : List Char) :
    splitAtMark? ']' (s ++ [c]) =
      (splitAtMark? ']' s).map fun parts => (parts.1, parts.2 ++ [c]) := by
  fun_induction splitAtMark? ']' s with
  | case1 => simp [splitAtMark?, other]
  | case2 d rest ih =>
    rw [List.cons_append, List.cons_append, splitAtMark?, ih, Option.map_map, Option.map_map]
    rfl
  | case3 rest alone =>
    rw [List.cons_append, splitAtMark_cons fun h => absurd h (by decide), if_pos rfl]
    rfl
  | case4 d rest alone passes ih =>
    by_cases same : d = '\\'
    · obtain rfl := last_of_alone alone same
      subst same
      rfl
    · rw [List.cons_append, splitAtMark_cons fun h => absurd h same, if_neg passes, ih,
        Option.map_map, Option.map_map]
      rfl

end Text

open Text

section
variable {c : Char} {s bs : List Char}

theorem Count.written_append_blank (blank : isBlank c = true) (inside : Option (List Char))
    (s : List Char) : written inside (s ++ [c]) = written inside s := by
  have other : c ≠ '(' ∧ c ≠ ')' := by
    constructor <;>
    · rintro rfl
      exact absurd blank (by decide)
  fun_induction written inside s with
  | case1 inside => cases inside <;> simp [written, other]
  | case2 rest text ih => rw [List.cons_append, written, if_pos rfl, ih]
  | case3 d rest text passes ih => rw [List.cons_append, written, if_neg passes, ih]
  | case4 rest ih => rw [List.cons_append, List.cons_append, written, ih]
  | case5 d rest alone ih =>
    rw [List.cons_append, written, ih]
    intro t same front
    cases rest with
    | nil => exact other.1 (List.cons.inj front).1
    | cons e rest => exact alone rest same (by rw [(List.cons.inj front).1])

/-- The quoted line is all that it makes a difference to. -/
theorem Count.asked_append_blank (blank : isBlank c = true) (s : List Char) :
    (asked (.ofList (s ++ [c]))).mapError Error.unquoted =
      (asked (.ofList s)).mapError Error.unquoted := by
  unfold asked
  rw [String.toList_ofList, String.toList_ofList, written_append_blank blank]
  split
  · rfl
  · next text others _ =>
    cases read (.ofList text) with
    | error e => rfl
    | ok n =>
      cases others <;> rfl

namespace Declaration

theorem readCount_alike {kind : Kind} {line line' : String} (after : List Char)
    (asks : (Count.asked line').mapError Error.unquoted =
      (Count.asked line).mapError Error.unquoted) :
    (readCount kind line' after).mapError Error.unquoted =
      (readCount kind line after).mapError Error.unquoted := by
  unfold readCount
  split
  · rfl
  · split
    · cases there : Count.asked line with
      | error e =>
        cases there' : Count.asked line' with
        | error e' =>
          rw [there, there'] at asks
          exact asks
        | ok count' =>
          rw [there, there'] at asks
          cases asks
      | ok count =>
        rw [there] at asks
        rw [mapError_eq_ok.mp asks]
        dsimp only [bind, Except.bind]
        split
        · rfl
        · cases count <;> rfl
    · rfl

theorem read_append_blank (blank : isBlank c = true) (s : List Char) :
    (read (s ++ [c])).mapError Error.unquoted = (read s).mapError Error.unquoted := by
  unfold read
  rw [splitAtMark_append (ne_of_isBlank blank).2.2]
  cases splitAtMark? ']' s with
  | none => rfl
  | some parts =>
    dsimp only [Option.map]
    cases Block.read (parts.1 ++ [']']) with
    | error e => rfl
    | ok block =>
      dsimp only [bind, Except.bind]
      cases block.kind with
      | none => rfl
      | some kind =>
        dsimp only
        split
        · rfl
        · rw [trim_append blank]
          refine mapError_bind_congr ?_ _
          exact readCount_alike (trim parts.2) (Count.asked_append_blank blank s)

theorem read_append_blanks (blank : allBlank bs = true) (s : List Char) :
    (read (s ++ bs)).mapError Error.unquoted = (read s).mapError Error.unquoted :=
  append_blanks (f := fun s => (read s).mapError Error.unquoted)
    (fun s _ blank => read_append_blank blank s) blank s

/-- Two declaration lines that differ in blanks at the end alone declare the same. -/
theorem read_alike {text text' : List Char} (same : trimEnd text = trimEnd text') :
    (read text).mapError Error.unquoted = (read text').mapError Error.unquoted := by
  obtain ⟨bs, blank, whole⟩ := exists_trimEnd text
  obtain ⟨bs', blank', whole'⟩ := exists_trimEnd text'
  rw [whole, whole', same, read_append_blanks blank, read_append_blanks blank']

end Declaration
end
end Phrasebook
