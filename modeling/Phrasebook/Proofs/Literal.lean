import Phrasebook.Proofs.Making
import Phrasebook.Proofs.Rows

/-!
# Literal text

A backslash makes any character literal, wherever the character stands, but for one place: a blank
at the end of a line is cut off before escapes are looked at, and leaves its backslash behind.

* `Text.literal`: a text with a backslash before every character;
* `prepare_literal`, `trim_literal`: what is left of it in a line of its own;
* `reads_literal`: it is read as one word;
* `read_ofLiteral`: an alias that is declared with such a rule has this word for its only rule, just
  when the word does not end in a blank.
-/

namespace Phrasebook

namespace Text

variable {s t : List Char} {c : Char}

/-- The text with every character escaped. -/
def literal (s : List Char) : List Char := s.flatMap fun c => ['\\', c]

/-- What preparing a line leaves of it: semicolons need their backslash no longer. -/
def literalPrepared (s : List Char) : List Char :=
  s.flatMap fun c => if c = ';' then [c] else ['\\', c]

theorem prepared_literal (s : List Char) : Prepared (literal s) (literalPrepared s) := by
  induction s with
  | nil => exact .nil
  | cons c s ih => exact (prepared_escaped c).append ih

theorem mem_literal (h : c ∈ literal s) : c = '\\' ∨ c ∈ s := by
  obtain ⟨d, there, here⟩ := List.mem_flatMap.mp h
  rcases List.mem_cons.mp here with rfl | same
  · exact .inl rfl
  · exact .inr (List.mem_singleton.mp same ▸ there)

theorem literalPrepared_cons (c : Char) (s : List Char) :
    literalPrepared (c :: s) = (if c = ';' then [c] else ['\\', c]) ++ literalPrepared s :=
  rfl

/-- It never starts with a bracket, or with a blank. -/
theorem literalPrepared_head (s : List Char) :
    literalPrepared s = [] ∧ s = [] ∨
      ∃ c rest, literalPrepared s = c :: rest ∧ (c = ';' ∨ c = '\\') := by
  cases s with
  | nil => exact .inl ⟨rfl, rfl⟩
  | cons c s =>
    rw [literalPrepared_cons]
    by_cases semicolon : c = ';'
    · exact .inr ⟨c, _, by rw [if_pos semicolon]; rfl, .inl semicolon⟩
    · exact .inr ⟨'\\', _, by rw [if_neg semicolon]; rfl, .inr rfl⟩

theorem trimStart_literal (s t : List Char) :
    trimStart (literalPrepared s ++ t) =
      if s = [] then trimStart t else literalPrepared s ++ t := by
  rcases literalPrepared_head s with ⟨none, rfl⟩ | ⟨c, rest, same, front⟩
  · rfl
  · have filled : s ≠ [] := by
      rintro rfl
      cases same
    have visible : isBlank c = false := by
      rcases front with rfl | rfl <;> decide
    rw [if_neg filled, same, List.cons_append, trimStart_cons visible]

/-- A blank at the end is cut off. -/
theorem trimEnd_literal_blank (blank : isBlank c = true) (s : List Char) :
    trimEnd (literalPrepared (s ++ [c])) = literalPrepared s ++ ['\\'] := by
  have other : c ≠ ';' := by
    rintro rfl
    exact absurd blank (by decide)
  have last : literalPrepared (s ++ [c]) = literalPrepared s ++ ['\\'] ++ [c] := by
    simp [literalPrepared, other]
  rw [last, trimEnd_append_blank blank]
  apply trimEnd_eq_self
  intro d hd
  rw [List.getLast?_concat] at hd
  cases hd
  decide

theorem trimEnd_literal (visible : ∀ c ∈ s.getLast?, isBlank c = false) :
    trimEnd (literalPrepared s) = literalPrepared s := by
  apply trimEnd_eq_self
  rcases s.eq_nil_or_concat' with rfl | ⟨front, c, rfl⟩
  · nofun
  · intro d hd
    have last : (literalPrepared (front ++ [c])).getLast? = some c := by
      rw [literalPrepared, List.flatMap_append, List.getLast?_append]
      by_cases semicolon : c = ';' <;> simp [semicolon]
    rw [last] at hd
    cases hd
    exact visible c (by simp)

end Text

open Text

/-- It is read as the characters that are escaped, one by one, in the word that was begun. -/
theorem reads_literal {t word : List Char} (s : List Char) (next : t.head? ≠ some '[')
    {pieces : List Piece} :
    Reads word (literalPrepared s ++ t) pieces ↔ Reads (s.reverse ++ word) t pieces := by
  induction s generalizing word with
  | nil => rfl
  | cons c s ih =>
    rw [List.reverse_cons, List.append_assoc, List.singleton_append, ← ih, literalPrepared_cons]
    by_cases semicolon : c = ';'
    · have next' : (literalPrepared s ++ t).head? ≠ some '[' := by
        rcases literalPrepared_head s with ⟨none, -⟩ | ⟨d, rest, same, front⟩
        · rwa [none]
        · rw [same]
          rcases front with rfl | rfl <;> nofun
      rw [if_pos semicolon]
      subst semicolon
      exact reads_char (by decide) (by decide) (by decide) (by decide) next'
    · rw [if_neg semicolon]
      exact reads_escaped

/-- A backslash at the very end is a character of the word. -/
theorem reads_backslash {word : List Char} {pieces : List Piece} :
    Reads word ['\\'] pieces ↔ pieces = flush ('\\' :: word) [] := by
  rw [← reads_nil]
  constructor
  · intro h
    cases h with
    | reference opens => cases opens
    | group opens => cases opens
    | blank _ blank => exact absurd blank (by decide)
    | char _ _ _ _ after => exact after
  · exact .char (fun _ => rfl) rfl (by decide) (by decide)

theorem Rule.read_word {text word : List Char} (filled : word ≠ [])
    (reads : ∀ pieces, Reads [] text pieces ↔ pieces = flush word.reverse []) :
    read (.ofList text) = .ok ⟨[.word (.ofList word)], none⟩ := by
  have flushed : flush word.reverse [] = [.word (.ofList word)] := by
    simp [flush, filled]
  have read : readPieces (.ofList text) [] (String.ofList text).toList =
      .ok [.word (.ofList word)] := by
    rw [String.toList_ofList, readPieces_eq_ok, reads, flushed]
  rw [Rule.read, read]
  rfl

/-- The word that is read of an escaped one at the end of a line. -/
def Text.leftAtEnd (w : List Char) : List Char :=
  if w.getLast?.any isBlank then w.dropLast ++ ['\\'] else w

theorem Text.leftAtEnd_eq_self (w : List Char) :
    leftAtEnd w = w ↔ ∀ c ∈ w.getLast?, isBlank c = false := by
  unfold leftAtEnd
  rcases w.eq_nil_or_concat' with rfl | ⟨front, c, rfl⟩
  · simp
  · rw [List.getLast?_concat, List.dropLast_concat]
    cases blank : isBlank c with
    | true =>
      have other : '\\' ≠ c := by
        rintro rfl
        exact absurd blank (by decide)
      simp [blank, other]
    | false => simp [blank]

theorem Rule.read_literal {w : List Char} (filled : w ≠ []) :
    read (.ofList (trim (literalPrepared w))) = .ok ⟨[.word (.ofList (leftAtEnd w))], none⟩ := by
  obtain ⟨front, c, rfl⟩ := w.eq_nil_or_concat'.resolve_left filled
  have start : trimStart (literalPrepared (front ++ [c])) = literalPrepared (front ++ [c]) := by
    have whole := trimStart_literal (front ++ [c]) []
    rwa [if_neg filled, List.append_nil] at whole
  rw [trim, start, leftAtEnd, List.getLast?_concat, Option.any_some, List.dropLast_concat]
  cases blank : isBlank c with
  | true =>
    rw [trimEnd_literal_blank blank, if_pos rfl]
    apply read_word (by simp)
    intro pieces
    rw [reads_literal front (by simp), reads_backslash]
    simp
  | false =>
    have visible : ∀ d ∈ (front ++ [c]).getLast?, isBlank d = false := by
      simpa using blank
    rw [trimEnd_literal visible, if_neg (by simp)]
    apply read_word filled
    intro pieces
    rw [← List.append_nil (literalPrepared _), reads_literal _ (by simp), List.append_nil,
      reads_nil]

/-! ## In a template -/

namespace TemplateLine

theorem read_literal {w : List Char} (filled : w ≠ []) :
    read (' ' :: ' ' :: literal w) = .rule (trim (literalPrepared w)) := by
  have blank : isBlank ' ' = true := by decide
  have indent : Prepared [' ', ' '] [' ', ' '] := Spelling.prepared_plain (by simp)
  have prepared : prepare (' ' :: ' ' :: literal w) = ' ' :: ' ' :: literalPrepared w :=
    prepare_eq (indent.append (prepared_literal w))
  have trimmed : trim (' ' :: ' ' :: literalPrepared w) = trim (literalPrepared w) := by
    rw [trim, trimStart_cons_blank blank, trimStart_cons_blank blank, trim]
  have some : trim (literalPrepared w) ≠ [] := by
    intro none
    have word := Rule.read_literal filled
    rw [none, Rule.read, readPieces.eq_def] at word
    cases word
  rw [read_indented rfl, prepared, trimmed, if_neg some]

end TemplateLine

namespace Template

/-- A template that declares one alias, with one rule of escaped characters, up to the line feed at
its end. -/
def ofLiteral (w : List Char) : List Char := "~[a]\n  ".toList ++ literal w

/-- The store with one alias, which has one rule, which is one word. -/
def oneWord (w : List Char) : Store :=
  (∅ : Store).put .alias "a" ⟨"a", .alias, false, [⟨none, none, [⟨[.word (.ofList w)], none⟩]⟩]⟩

theorem seen_literal {w ending : List Char} (filled : w ≠ []) (feedless : '\n' ∉ w)
    (ends : ending = [] ∨ ending = ['\n']) :
    TemplateLine.seen (lines (ofLiteral w ++ ending)) =
      [.declaration "~[a]".toList, .rule (trim (literalPrepared w))] := by
  let row := ' ' :: ' ' :: literal w
  have free : '\n' ∉ row := by
    intro there
    have there : '\n' ∈ literal w := by simpa [row] using there
    rcases mem_literal there with same | there
    · cases same
    · exact feedless there
  have rule : TemplateLine.seen [row] = [.rule (trim (literalPrepared w))] := by
    simp [TemplateLine.seen, row, TemplateLine.read_literal filled]
  have behind : TemplateLine.seen (lines (row ++ ending)) = TemplateLine.seen [row] := by
    rcases ends with rfl | rfl
    · rw [List.append_nil, lines_end free (List.cons_ne_nil _ _)]
    · rw [lines_row free, TemplateLine.seen_cons,
        TemplateLine.seen_withoutReturn ⟨free, .inl rfl⟩]
      exact List.append_nil _
  have whole : ofLiteral w ++ ending = "~[a]".toList ++ '\n' :: (row ++ ending) := rfl
  rw [whole, lines_row (by decide), TemplateLine.seen_cons, behind, rule]
  rfl

theorem oneWord_inj {v w : List Char} : oneWord v = oneWord w ↔ v = w := by
  constructor
  · intro same
    have found := congrArg (fun s : Store => s.find? .alias "a") same
    apply String.ofList_injective
    simpa [oneWord, Store.find?_put] using found
  · exact congrArg oneWord

theorem read_leftAtEnd {fs : Files} {w ending : List Char} (filled : w ≠ []) (feedless : '\n' ∉ w)
    (ends : ending = [] ∨ ending = ['\n']) :
    read fs (.ofList (ofLiteral w ++ ending)) = .ok (oneWord (leftAtEnd w)) := by
  have rows := seen_literal filled feedless ends
  rw [← String.toList_ofList (l := ofLiteral w ++ ending)] at rows
  have head : Declaration.read "~[a]".toList = .ok ⟨.alias, "a", false, ⟨none, none, []⟩⟩ := rfl
  apply (read_single rows).mpr
  exact ⟨_, _, head, Rule.read_literal filled, rfl, rfl⟩

/-- **Escaped characters are literal**, but for a blank at the end of the line: an alias whose only
rule has a backslash before every character is read, and has one rule, which is one word. The word
is the text that was escaped just when this does not end in a blank. Otherwise there is a backslash
in place of the blank. -/
theorem read_ofLiteral (fs : Files) {w ending : List Char} (filled : w ≠ []) (feedless : '\n' ∉ w)
    (ends : ending = [] ∨ ending = ['\n']) :
    (read fs (.ofList (ofLiteral w ++ ending)) = .ok (oneWord w) ↔
      ∀ c ∈ w.getLast?, isBlank c = false) ∧
    ∀ front c, w = front ++ [c] → isBlank c = true →
      read fs (.ofList (ofLiteral w ++ ending)) = .ok (oneWord (front ++ ['\\'])) := by
  rw [read_leftAtEnd filled feedless ends]
  constructor
  · rw [Except.ok.injEq, oneWord_inj, leftAtEnd_eq_self]
  · rintro front c rfl blank
    simp [leftAtEnd, blank]

/-- Brackets, a sigil, a semicolon, an equals sign, a backslash and a blank in front. -/
theorem read_ofLiteral_marks :
    read {} (.ofList (ofLiteral [' ', '~', '[', ';', ']', '=', '\\'] ++ ['\n'])) =
      .ok (oneWord [' ', '~', '[', ';', ']', '=', '\\']) := by
  apply (read_ofLiteral {} (List.cons_ne_nil _ _) (by decide) (.inr rfl)).1.mpr
  rintro c ⟨⟩
  decide

/-- The blank at the end is not there in the word that is read. -/
theorem literal_blank_lost :
    read {} (.ofList (ofLiteral ['x', ' '] ++ ['\n'])) = .ok (oneWord ['x', '\\']) ∧
      read {} (.ofList (ofLiteral ['x', ' '] ++ ['\n'])) ≠ .ok (oneWord ['x', ' ']) := by
  have left : leftAtEnd ['x', ' '] = ['x', '\\'] := by decide
  rw [read_leftAtEnd (List.cons_ne_nil _ _) (by decide) (.inr rfl), left]
  have other : ['x', '\\'] ≠ ['x', ' '] := by decide
  exact ⟨rfl, fun same => other (oneWord_inj.mp (Except.ok.inj same))⟩

end Template
end Phrasebook
