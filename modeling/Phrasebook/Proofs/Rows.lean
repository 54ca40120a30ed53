import Mathlib.Data.List.Basic
import Phrasebook.Proofs.Heads
import Phrasebook.Proofs.Reread

/-!
# Rows of a definition

A definition is written in rows, a head for each variation and an indented row for each of its
rules, and each row is read as a line of a template.

* `TemplateLine.read_head`, `TemplateLine.read_row`: what the lines are taken for;
* `Rule.readFor_trimmed`: a rule is read back from its row just when it is rereadable;
* `Variation.steady_rows`: the rows are on one line each, and blanks behind them do not count.
-/

namespace Phrasebook

open Text

/-! ## Heads -/

namespace Text

/-- A character that is not blank, at the front of a line, stays there. -/
theorem prepare_cons {c : Char} (unescaped : c ≠ '\\') (passes : c ≠ ';')
    (visible : isBlank c = false) (s : List Char) : ∃ rest, prepare (c :: s) = c :: rest := by
  have alone : ∀ {t : List Char}, c = '\\' → t = [] := fun same => absurd same unescaped
  have kept : ∃ t, withoutComment (c :: s) = c :: t := by
    rw [withoutComment, beforeComment_cons alone, if_neg passes]
    cases beforeComment? s with
    | none => exact ⟨s, rfl⟩
    | some kept =>
      refine ⟨trimEnd kept, ?_⟩
      rw [Option.map_some]
      exact (trimEnd_cons c kept).trans (if_neg (by simp [visible]))
  obtain ⟨t, kept⟩ := kept
  rw [prepare, kept, plainSemicolons_cons alone]
  exact ⟨_, rfl⟩

end Text

theorem TemplateLine.read_head (kind : Kind) (s : List Char) :
    read (kind.sigil :: s) = .declaration (prepare (kind.sigil :: s)) := by
  have unescaped : kind.sigil ≠ '\\' := by cases kind <;> decide
  have passes : kind.sigil ≠ ';' := by cases kind <;> decide
  have visible : isBlank kind.sigil = false := by cases kind <;> decide
  have other : kind.sigil ≠ '|' := by cases kind <;> decide
  obtain ⟨rest, same⟩ := prepare_cons unescaped passes visible s
  have filled : allBlank (kind.sigil :: rest) = false := by simp [allBlank, visible]
  simp [read, same, filled, visible, other, Kind.ofSigil?_sigil]

/-! ## Rules -/

namespace Spelling

variable {σ : Spelling} {r : Rule}

theorem prepared_rule (sound : r.Sound) : Prepared (template.rule r) (line.rule r) :=
  (prepared_pieces r.pieces sound.pieces).append (prepared_value r.value)

/-- No blank is escaped in a rule. -/
theorem loose_rule (sound : r.Sound) : Loose (isBlank · = false) 0 (σ.rule r) := by
  have pieces : Balanced (isBlank · = false) (fun _ => True) (σ.pieces r.pieces) :=
    balanced_pieces r.pieces sound.pieces (fun c hc => (not_blank_of_mem hc).1)
      (fun _ _ _ _ _ => trivial) trivial fun _ => trivial
  have value : Balanced (isBlank · = false) (fun _ => True) (σ.value r.value) := by
    cases r.value with
    | none => exact .nil
    | some v =>
      have word : Balanced (isBlank · = false) (fun _ => True) (σ.word v) :=
        balanced_escape σ.guarded (fun c _ hc => (not_blank_of_mem hc).1) fun _ _ _ => trivial
      exact .plain (by decide) (by decide) (by decide) trivial
        (.plain (by decide) (by decide) (by decide) trivial
          (.plain (by decide) (by decide) (by decide) trivial word))
  exact (pieces.append value).loose (by decide) (fun _ h => h) fun _ _ h => h

theorem rule_ne_nil (sound : r.Sound) : σ.rule r ≠ [] := by
  obtain ⟨p, rest, same⟩ := List.exists_cons_of_ne_nil sound.nonempty
  have pieces := sound.pieces
  rw [same] at pieces
  obtain ⟨c, text, written, _⟩ := piece_front σ pieces.1
  simp [rule, same, pieces_cons, written]

/-- Without blanks in its words, a rule begins and ends in none. -/
theorem trim_rule (sound : r.Sound) (visible : ∀ p ∈ r.pieces, p.Made (isBlank · = false)) :
    trim (σ.rule r) = σ.rule r := by
  have front := pieces_head_visible σ sound.pieces visible
  have ends : ∀ c ∈ (σ.rule r).getLast?, isBlank c = false := by
    unfold rule
    cases valued : r.value with
    | none =>
      rw [value, List.append_nil]
      exact pieces_last_visible σ sound.pieces visible
    | some v =>
      have last : (σ.pieces r.pieces ++ σ.value (some v)).getLast? = v.toList.getLast? := by
        have filled : σ.word v ≠ [] := fun none =>
          (sound.value v valued).1 (by simpa using escape_eq_nil.mp none)
        have front : σ.pieces r.pieces ++ σ.value (some v) =
            (σ.pieces r.pieces ++ [' ', '=', ' ']) ++ σ.word v := by
          simp [value]
        rw [front, List.getLast?_append_of_ne_nil _ filled]
        exact getLast?_escape σ.words v.toList
      rw [last]
      exact (sound.value v valued).2
  refine (trim_eq_self_iff ends).mpr ?_
  obtain ⟨p, rest, same⟩ := List.exists_cons_of_ne_nil sound.nonempty
  have pieces := sound.pieces
  rw [same] at pieces front
  obtain ⟨c, text, written, _⟩ := piece_front σ pieces.1
  rw [rule, same]
  rw [pieces_cons, written] at front ⊢
  exact front

end Spelling

namespace Rule

/-- Words are made of what stands outside of the brackets of the text. -/
theorem loose_of_readFor {good : Char → Prop} {kind : Kind} {s : List Char} {r : Rule}
    (h : readFor kind (.ofList s) = .ok r) (escape : good '\\') (loose : Loose good 0 s) :
    ∀ text, .word text ∈ r.pieces → ∀ c ∈ text.toList, good c := by
  have plain : ∀ {r}, read (.ofList s) = .ok r →
      ∀ text, .word text ∈ r.pieces → ∀ c ∈ text.toList, good c := by
    intro r h
    obtain ⟨reads, _, _⟩ := read_eq_ok.mp h
    rw [String.toList_ofList] at reads
    exact reads.loose (by simp) loose
  unfold readFor at h
  split at h
  · unfold readSlot at h
    split at h
    · exact plain h
    · next phrase value split =>
      rw [String.toList_ofList] at split
      dsimp only at h
      split at h
      · cases h
      · obtain ⟨r, read, h⟩ := bind_eq_ok.mp h
        cases h
        obtain ⟨reads, _, _⟩ := read_eq_ok.mp read
        rw [String.toList_ofList] at reads
        rw [eq_of_splitOutside? split] at loose
        exact reads.loose (by simp) (loose_trimEnd escape (loose_append_left escape loose))
  · exact plain h

variable {σ : Spelling} {kind : Kind} {r : Rule}

theorem readFor_spelled (wellFormed : r.WellFormed kind) :
    readFor kind (.ofList (σ.rule r)) = .ok r.erased ↔ r.Rereadable := by
  rw [← readSlot_spelled σ wellFormed.sound, readFor]
  split
  · rfl
  · next other =>
    -- there is no equals sign to split at where there is no value
    have bare : r.value = none :=
      Classical.byContradiction fun some => other (wellFormed.valued some)
    have none := splitOutside?_pieces (σ := σ) wellFormed.sound.pieces []
    rw [readSlot, String.toList_ofList, Spelling.rule, bare, Spelling.value, none]
    rfl

/-- A rule is read back from its row just when it is rereadable. -/
theorem readFor_trimmed (wellFormed : r.WellFormed kind) :
    readFor kind (.ofList (trim (σ.rule r))) = .ok r.erased ↔ r.Rereadable := by
  have sound := wellFormed.sound
  constructor
  · intro h
    have loose := loose_trimEnd (by decide) (loose_trimStart (Spelling.loose_rule (σ := σ) sound))
    have words := loose_of_readFor h (by decide) loose
    have visible : ∀ p ∈ r.pieces, p.Made (isBlank · = false) :=
      Piece.made_of_words fun text known => words text (Piece.word_mem_erasedAll known)
    rw [Spelling.trim_rule sound visible] at h
    exact (readFor_spelled wellFormed).mp h
  · intro rereadable
    rw [Spelling.trim_rule sound rereadable.pieces.visible]
    exact (readFor_spelled wellFormed).mpr rereadable

end Rule

/-! ## Rows -/

/-- A rule below its head. -/
def Rule.row (r : Rule) : List Char := ' ' :: ' ' :: Spelling.template.rule r

/-- What its row is read as a rule from. -/
def Rule.rowText (r : Rule) : List Char := trim (Spelling.line.rule r)

theorem TemplateLine.read_row {r : Rule} (sound : r.Sound) :
    read r.row = if r.rowText = [] then .blank else .rule r.rowText := by
  have blank : isBlank ' ' = true := by decide
  have indent : Prepared [' ', ' '] [' ', ' '] := Spelling.prepared_plain (by simp)
  have prepared : prepare r.row = ' ' :: ' ' :: Spelling.line.rule r :=
    prepare_eq (indent.append (Spelling.prepared_rule sound))
  have trimmed : trim (' ' :: ' ' :: Spelling.line.rule r) = r.rowText := by
    rw [trim, trimStart_cons_blank blank, trimStart_cons_blank blank, Rule.rowText, trim]
  rw [read_indented rfl, prepared, trimmed]

namespace Variation

variable {kind : Kind} {name : String} {casing : Bool} {v : Variation}

def rows (kind : Kind) (name : String) (casing : Bool) (v : Variation) : List (List Char) :=
  v.head kind name casing :: v.rules.map Rule.row

/-- What is read as the head and as the rules below it. -/
def sights (kind : Kind) (name : String) (casing : Bool) (v : Variation) :
    List Char × List (List Char) :=
  (prepare (v.head kind name casing), (v.rules.map Rule.rowText).filter (· ≠ []))

theorem seen_rules {rules : List Rule} (sound : ∀ r ∈ rules, r.Sound) :
    TemplateLine.seen (rules.map Rule.row) =
      ((rules.map Rule.rowText).filter (· ≠ [])).map .rule := by
  induction rules with
  | nil => rfl
  | cons r rest ih =>
    have others := ih fun r hr => sound r (List.mem_cons_of_mem _ hr)
    have first := TemplateLine.read_row (sound r List.mem_cons_self)
    rw [List.map_cons, TemplateLine.seen_cons, others, List.map_cons]
    by_cases blank : r.rowText = []
    · rw [if_pos blank] at first
      rw [TemplateLine.seen_blank first, List.filter_cons_of_neg (by simp [blank])]
      rfl
    · rw [if_neg blank] at first
      rw [List.filter_cons_of_pos (by simp [blank])]
      simp [TemplateLine.seen, first]

theorem seen_rows (sound : ∀ r ∈ v.rules, r.Sound) :
    TemplateLine.seen (v.rows kind name casing) =
      .declaration (v.sights kind name casing).1 :: (v.sights kind name casing).2.map .rule := by
  have head : TemplateLine.read (v.head kind name casing) =
      .declaration (prepare (v.head kind name casing)) := by
    rw [head, (v.parts kind name casing).text_append rfl rfl]
    exact TemplateLine.read_head kind _
  rw [rows, TemplateLine.seen_cons, seen_rules sound]
  simp [TemplateLine.seen, head, sights]

theorem feedless_head (lined : v.Lined) (name_lined : '\n' ∉ name.toList) :
    '\n' ∉ v.head kind name casing := by
  have sigil : kind.sigil ≠ '\n' := by cases kind <;> decide
  have asked : '\n' ∉ v.asked := by
    unfold asked
    split
    · simp only [List.mem_cons, List.mem_append, List.not_mem_nil, or_false]
      rintro (same | digit | same)
      · cases same
      · exact ne_of_mem_digitsOf digit (by decide) rfl
      · cases same
    · exact List.not_mem_nil
  have variation : '\n' ∉ Block.Parts.writtenVariation (v.name.map String.toList) := by
    cases same : v.name with
    | none => exact List.not_mem_nil
    | some n => simpa [Block.Parts.writtenVariation] using lined.name n same
  rw [head, (v.parts kind name casing).text_append rfl rfl]
  cases casing <;> simp [parts, sigil.symm, name_lined, variation, asked]

theorem last_head (v : Variation) :
    ∃ c, (v.head kind name casing).getLast? = some c ∧ isBlank c = false := by
  unfold head asked
  split
  · next n _ =>
    refine ⟨')', ?_, by decide⟩
    rw [List.getLast?_append_of_ne_nil _ (List.cons_ne_nil _ _), getLast?_count]
  · refine ⟨']', ?_, by decide⟩
    rw [List.append_nil, Block.Parts.text, ← List.append_assoc, List.getLast?_concat]

/-- Each row stands on a line of its own. -/
theorem steady_rows (lined : v.Lined) (name_lined : '\n' ∉ name.toList)
    (sound : ∀ r ∈ v.rules, r.Sound) : ∀ row ∈ v.rows kind name casing, Steady row := by
  intro row hr
  rcases List.mem_cons.mp hr with rfl | hr
  · exact ⟨feedless_head lined name_lined, .inr (last_head v)⟩
  · obtain ⟨r, known, rfl⟩ := List.mem_map.mp hr
    refine ⟨fun there => lined.rules r known ?_, .inl rfl⟩
    have rule : '\n' ∈ Spelling.template.rule r := by simpa [Rule.row] using there
    exact Spelling.feed_mem_rule (sound r known) rule

end Variation
end Phrasebook
