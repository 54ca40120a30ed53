import Phrasebook.Proofs.Nesting
import Phrasebook.Proofs.Trailing

/-!
# Files as one text

A file can be read from a single text: its own, with the text of the included file in the place of
every line that includes one.

* `Text.rows`: the lines of a text as they are written, and `rows_lines`: but for blanks at their
  ends, they are the lines that templates are read by;
* `Template.Inlines`: the single text, where the includes come to an end, and `Inlines.unique`:
  there is no other;
* `addFile_inlines`, `addLines_inlines`: whatever its lines are added to, the single text adds what
  the file adds;
* `load_inlines`: so it is read as the store of the file.
-/

namespace Phrasebook

namespace Text

variable {s t row before : List Char} {c : Char}

theorem Ended.feed (s : List Char) : Ended (s ++ ['\n']) := .inr List.getLast?_concat

theorem Ended.append (first : Ended s) (second : Ended t) : Ended (s ++ t) := by
  rcases second with rfl | feed
  · rwa [List.append_nil]
  · obtain ⟨front, rfl⟩ := List.getLast?_eq_some_iff.mp feed
    rw [← List.append_assoc]
    exact .feed (s ++ front)

/-! ## Lines as they are written -/

/-- The lines of a text with all their characters, up to the line feeds. -/
def rows (s : List Char) : List (List Char) :=
  go [] s
where
  go (before : List Char) : List Char → List (List Char)
    | [] => if before.isEmpty then [] else [before.reverse]
    | c :: rest => if c = '\n' then before.reverse :: go [] rest else go (c :: before) rest

theorem feedless_of_mem_rows_go (begun : '\n' ∉ before) (h : row ∈ rows.go before s) :
    '\n' ∉ row := by
  induction s generalizing before with
  | nil =>
    rw [rows.go] at h
    split at h
    · cases h
    · rw [List.mem_singleton.mp h]
      simpa using begun
  | cons c rest ih =>
    rw [rows.go] at h
    split at h
    · rcases List.mem_cons.mp h with rfl | later
      · simpa using begun
      · exact ih List.not_mem_nil later
    · next other =>
      refine ih (fun there => ?_) h
      rcases List.mem_cons.mp there with same | there
      · exact other same.symm
      · exact begun there

theorem feedless_of_mem_rows (h : row ∈ rows s) : '\n' ∉ row :=
  feedless_of_mem_rows_go List.not_mem_nil h

/-- Texts that differ in the blanks at their ends alone. -/
abbrev SameTrimmed (s t : List Char) : Prop := trimEnd s = trimEnd t

theorem trimEnd_withoutReturn (s : List Char) : trimEnd (withoutReturn s) = trimEnd s := by
  unfold withoutReturn
  split
  · next ends =>
    obtain ⟨front, rfl⟩ := List.getLast?_eq_some_iff.mp ends
    rw [List.dropLast_concat, trimEnd_append_blank (by decide)]
  · rfl

theorem trimEnd_prepare (same : SameTrimmed s t) : SameTrimmed (prepare s) (prepare t) := by
  obtain ⟨bs, blank, whole⟩ := exists_trimEnd s
  obtain ⟨bs', blank', whole'⟩ := exists_trimEnd t
  rw [SameTrimmed, whole, whole', same, trimEnd_prepare_append_blanks blank,
    trimEnd_prepare_append_blanks blank']

theorem rows_go_lines (s : List Char) :
    List.Forall₂ SameTrimmed (rows.go before s) (lines.go before s) := by
  induction s generalizing before with
  | nil =>
    rw [rows.go, lines.go]
    split
    · exact .nil
    · exact .cons rfl .nil
  | cons c rest ih =>
    rw [rows.go, lines.go]
    split
    · exact .cons (trimEnd_withoutReturn _).symm ih
    · exact ih

theorem rows_lines (s : List Char) : List.Forall₂ SameTrimmed (rows s) (lines s) :=
  rows_go_lines s

end Text

namespace Template

open Text TemplateLine

/-! ## Files as one text -/

/-- What a text is made from: a file, or the rest of its lines. -/
inductive Source where
  | file (path : String)
  | rows (base : String) (rows : List (List Char))

/-- The text of a file has the text of the included file in the place of every line that includes
one. Other lines stay as they are written, and each is ended by a line feed. -/
inductive Inlines (fs : Files) : Source → List Char → Prop
  | file {path place text whole} (located : fs.locate path = .ok place)
      (reads : fs.textAt place = .ok text)
      (lines : Inlines fs (.rows (Place.written place.tail) (rows text.toList)) whole) :
      Inlines fs (.file path) whole
  | done {base} : Inlines fs (.rows base []) []
  | kept {base row rest later}
      (line : ∀ target, TemplateLine.read (withoutReturn row) ≠ .inclusion target)
      (others : Inlines fs (.rows base rest) later) :
      Inlines fs (.rows base (row :: rest)) (row ++ '\n' :: later)
  | included {base row rest target here later}
      (line : TemplateLine.read (withoutReturn row) = .inclusion target)
      (inner : Inlines fs (.file (Path.join base (.ofList target))) here)
      (others : Inlines fs (.rows base rest) later) :
      Inlines fs (.rows base (row :: rest)) (here ++ later)

variable {fs : Files} {base : String} {source : Source} {s t : List Char}

theorem Inlines.unique (h : Inlines fs source s) (h' : Inlines fs source t) : s = t := by
  induction h generalizing t with
  | file located reads _ ih =>
    obtain ⟨located', reads', lines'⟩ := h'
    cases located.symm.trans located'
    cases reads.symm.trans reads'
    exact ih lines'
  | done =>
    cases h'
    rfl
  | kept line _ ih =>
    cases h' with
    | kept _ others' => rw [ih others']
    | included line' => exact absurd line' (line _)
  | included line _ _ inner others =>
    cases h' with
    | kept line' => exact absurd line (line' _)
    | included line' inner' others' =>
      cases line.symm.trans line'
      rw [inner inner', others others']

mutual

theorem addFile_inlines {fs : Files} {chain : List Place} {path : String} {store grown : Store}
    (h : addFile fs chain path store = .ok grown) : ∃ text, Inlines fs (.file path) text ∧
      Ended text ∧ ∀ chain origin base n,
        addLines fs chain origin base n (lines text) none store = .ok grown := by
  obtain ⟨place, text, located, absent, reads, h⟩ := addFile_eq_ok.mp h
  obtain ⟨whole, inlines, ended, same⟩ :=
    addLines_inlines (rows_lines _) (fun row => feedless_of_mem_rows) h
  exact ⟨whole, .file located reads inlines, ended,
    fun chain origin base n => same chain origin base n none rfl⟩
termination_by (unvisited (places fs) chain, 0)
decreasing_by
  exact Prod.Lex.left _ _ (unvisited_cons_lt (mem_places_of_textAt ‹_›) ‹_›)

theorem addLines_inlines {fs : Files} {chain : List Place} {origin base : String} {n : Nat}
    {rows raws : List (List Char)} {pending : Option Pending} {store grown : Store}
    (written : List.Forall₂ SameTrimmed rows raws) (feedless : ∀ row ∈ rows, '\n' ∉ row)
    (h : addLines fs chain origin base n raws pending store = .ok grown) :
    ∃ whole, Inlines fs (.rows base rows) whole ∧ Ended whole ∧
      ∀ chain origin base n (pending' : Option Pending),
        pending'.map (·.declaration) = pending.map (·.declaration) →
          addLines fs chain origin base n (lines whole) pending' store = .ok grown := by
  match raws, rows, written, h with
  | [], [], _, h =>
    refine ⟨[], .done, .inl rfl, fun chain origin base n pending' same => ?_⟩
    rw [addLines, settle_eq_ok] at h
    change addLines fs chain origin base n [] pending' store = .ok grown
    rw [addLines, settle_eq_ok, same]
    exact h
  | raw :: raws, row :: rows, .cons kept written, h =>
    have later : ∀ row ∈ rows, '\n' ∉ row := fun row there => feedless row (.tail _ there)
    have cut (whole : List Char) :
        lines (row ++ '\n' :: whole) = withoutReturn row :: lines whole :=
      lines_row (feedless row (.head _))
    have closed {whole : List Char} (ended : Ended whole) : Ended (row ++ '\n' :: whole) := by
      rw [List.append_cons]
      exact (Ended.feed row).append ended
    have alike : Alike (TemplateLine.read raw) (TemplateLine.read (withoutReturn row)) :=
      alike_read (trimEnd_prepare (kept.symm.trans (trimEnd_withoutReturn row).symm))
    generalize line : TemplateLine.read raw = here,
      line' : TemplateLine.read (withoutReturn row) = there at alike
    cases alike with
    | blank =>
      rw [addLines_blank line] at h
      obtain ⟨whole, inlines, ended, same⟩ := addLines_inlines written later h
      refine ⟨row ++ '\n' :: whole, .kept (by simp [line']) inlines, closed ended,
        fun chain origin base n pending' agree => ?_⟩
      rw [cut, addLines_blank line']
      exact same chain origin base (n + 1) pending' agree
    | rule text =>
      obtain ⟨p, r, rfl, reads, h⟩ := (addLines_rule line).mp h
      obtain ⟨whole, inlines, ended, same⟩ := addLines_inlines written later h
      refine ⟨row ++ '\n' :: whole, .kept (by simp [line']) inlines, closed ended,
        fun chain origin base n pending' agree => ?_⟩
      obtain ⟨q, rfl, kept⟩ := Option.map_eq_some_iff.mp agree
      have kept : q.declaration = p.declaration := kept
      have added : (q.addRule r).declaration = (p.addRule r).declaration := by
        simp only [Pending.addRule, kept]
      rw [cut, addLines_rule line']
      exact ⟨q, r, rfl, kept ▸ reads,
        same chain origin base (n + 1) (some (q.addRule r)) (congrArg some added)⟩
    | inclusion target =>
      obtain ⟨settled, included, settles, named, adds, h⟩ := (addLines_inclusion line).mp h
      obtain ⟨here, inner, ended, fills⟩ := addFile_inlines adds
      obtain ⟨whole, inlines, ended', same⟩ := addLines_inlines written later h
      refine ⟨here ++ whole, .included line' inner inlines, ended.append ended',
        fun chain origin base n pending' agree => ?_⟩
      rw [lines_append ended, addLines_append (fresh_of_read (same chain origin base 0 none rfl)),
        addLines_settled (fresh_of_read (fills chain origin base 0)), bind_eq_ok]
      refine ⟨included, bind_eq_ok.mpr ⟨settled, ?_, fills chain origin base n⟩,
        same chain origin base _ none rfl⟩
      rw [settle_eq_ok, agree]
      exact settle_eq_ok.mp settles
    | @declaration text text' trimmed =>
      obtain ⟨settled, d, settles, reads, h⟩ := (addLines_declaration line).mp h
      obtain ⟨whole, inlines, ended, same⟩ := addLines_inlines written later h
      refine ⟨row ++ '\n' :: whole, .kept (by simp [line']) inlines, closed ended,
        fun chain origin base n pending' agree => ?_⟩
      rw [cut, addLines_declaration line']
      refine ⟨settled, d, ?_, ?_, same chain origin base (n + 1) (some ⟨d, n⟩) rfl⟩
      · rw [settle_eq_ok, agree]
        exact settle_eq_ok.mp settles
      · rw [← mapError_eq_ok, ← Declaration.read_alike trimmed, reads]
        rfl
    | unknown text text' => exact absurd h (addLines_unknown line)
termination_by (unvisited (places fs) chain, raws.length + 1)
decreasing_by
  all_goals exact Prod.Lex.right _ (by simp)

end

/-- **Including is inlining.** A file that is read is read from a single text, in which every line
that includes another file is the text of that file. Reading always ends, and fails for a file that
includes itself just when it comes to one that is being read already. -/
theorem load_inlines (fs : Files) (path : String) :
    (∀ s, load fs path = .ok s →
      ∃ text, Inlines fs (.file path) text ∧
        (∀ other, Inlines fs (.file path) other → other = text) ∧
          read fs (.ofList text) = .ok s) ∧
    (WellFounded fun inner outer => Stage.Comes fs outer inner) ∧
    (∀ stage, Stage.Reaches fs (.file [] path ∅) stage → Stage.Chained fs stage.chain) ∧
    ∀ again, (∃ stage, Stage.Reaches fs (.file [] path ∅) stage ∧ stage.Again fs again) ↔
      ∃ e, load fs path = .error e ∧ e.root = .notIncluded again .circular := by
  refine ⟨fun s loads => ?_, Stage.wellFounded_comes fs, fun stage reaches => ?_,
    fun again => Stage.circular_iff.symm⟩
  · obtain ⟨text, inlines, -, fills⟩ := addFile_inlines loads
    refine ⟨text, inlines, fun other inlines' => inlines'.unique inlines, ?_⟩
    rw [read, String.toList_ofList]
    exact fills [] inlineName "." 1
  · exact Stage.chained_of_reaches reaches Stage.chained_nil

theorem load_inlines_greeting : ∃ (fs : Files) (s : Store) (text : List Char),
    load fs "a" = .ok s ∧ s.stats = ⟨1, 0, 1, 2, 2⟩ ∧ Inlines fs (.file "a") text ∧
      read fs (.ofList text) = .ok s := by
  let outer := "|b\n%[greet](2)\n  ~[hi]"
  let inner := "~[hi]\n  hello"
  let fs : Files := {
    entries := [(["a"], .file (Text.utf8 outer) 1), (["b"], .file (Text.utf8 inner) 1)] }
  let word : Definition := ⟨"hi", .alias, false, [⟨none, none, [⟨[.word "hello"], none⟩]⟩]⟩
  let call : Definition := ⟨"greet", .intent, false, [⟨none, some 2,
    [⟨[.reference .alias "hi" ⟨false, none, none, none⟩], none⟩]⟩]⟩
  let part : Store := ⟨⟨[("hi", word)], by decide⟩, ∅, ∅⟩
  let whole : Store := ⟨⟨[("hi", word)], by decide⟩, ∅, ⟨[("greet", call)], by decide⟩⟩
  have loads : load fs "a" = .ok whole := by
    have located : fs.locate "a" = .ok ["a"] := by cbv
    have located' : fs.locate "/b" = .ok ["b"] := by cbv
    have apart : ["b"] ∉ [["a"]] := by decide
    have adds : addFile fs [["a"]] "/b" ∅ = .ok part := by
      rw [addFile_opened located' apart (Files.textAt_utf8 rfl rfl)]
      cbv
    have joined : Path.join (Place.written []) (.ofList "b".toList) = "/b" := by cbv
    have cut : Text.lines outer.toList =
      "|b".toList :: ["%[greet](2)".toList, "  ~[hi]".toList] := by cbv
    have includes : TemplateLine.read "|b".toList = .inclusion "b".toList := rfl
    rw [load, addFile_opened located List.not_mem_nil (Files.textAt_utf8 rfl rfl), cut]
    refine (addLines_inclusion includes).mpr ⟨∅, part, rfl, rfl, ?_, by cbv⟩
    rw [List.tail_cons, joined]
    exact adds
  obtain ⟨text, inlines, -, same⟩ := (load_inlines fs "a").1 whole loads
  exact ⟨fs, whole, text, loads, rfl, inlines, same⟩

end Template
end Phrasebook
