import Phrasebook.Proofs.Balanced
import Phrasebook.Proofs.Sound
import Phrasebook.Rule.Printer

/-!
# Spellings of a rule

A rule is written with a backslash before some characters of its words and its block parts. There is
one way to choose them for a line of a template, and preparing the line leaves another, in which
semicolons are plain. What matters to the readers is the same in both.

* `Spelling`: such a choice, and `Spelling.rule`: the text of a rule;
* `toList_written`, `prepare_written`: the printer's text, and what is left of it by preparing it;
* `balanced_pieces`, `paired_body`, `paired_reference`: it is balanced;
* `readVariation_spelled`, `readInclusion_spelled`: the modifiers of a block are read back.
-/

namespace Phrasebook

/-- The characters that are escaped in words and in parts of blocks: enough for both to be read
back, and no others than the printer escapes. -/
structure Spelling where
  words : List Char
  parts : List Char
  guarded : Text.structural ⊆ words
  equals : '=' ∈ words
  few : words ⊆ wordSpecials
  fenced : Text.structural ⊆ parts
  stops : ∀ c, Block.isStop c = true → c ∈ parts
  few' : parts ⊆ partSpecials

namespace Spelling

def template : Spelling where
  words := wordSpecials
  parts := partSpecials
  guarded := by decide
  equals := by decide
  few := List.Subset.refl _
  fenced := by decide
  stops c := by simp [Block.isStop, partSpecials]; grind
  few' := List.Subset.refl _

def line : Spelling where
  words := ['[', ']', '\\', '=']
  parts := ['[', ']', '\\', '#', '?', '/']
  guarded := by decide
  equals := by decide
  few := by decide
  fenced := by decide
  stops c := by simp [Block.isStop]; grind
  few' := by decide

variable (σ : Spelling)

def word (text : String) : List Char := Text.escape σ.words text.toList

def part (text : String) : List Char := Text.escape σ.parts text.toList

def casing (m : Modifiers) : List Char := if m.casing then ['&'] else []

def variation (m : Modifiers) : List Char :=
  match m.variation with
  | some v => '#' :: σ.part v
  | none => []

def percent (m : Modifiers) : List Char :=
  match m.percent with
  | some p => '/' :: (toString p.toNat).toList
  | none => []

def group (m : Modifiers) : List Char :=
  match m.group with
  | some g => '?' :: (σ.part g ++ percent m)
  | none => []

def block (inner : List Char) : List Char := '[' :: (inner ++ [']'])

mutual

def piece : Piece → List Char
  | .word text => σ.word text
  | .group ps _ m => block (casing m ++ (pieces ps ++ σ.group m))
  | .reference kind name m =>
    kind.sigil :: block (casing m ++ (σ.part name ++ (σ.variation m ++ σ.group m)))

def pieces : List Piece → List Char
  | [] => []
  | [p] => piece p
  | p :: q :: rest => piece p ++ ' ' :: pieces (q :: rest)

end

/-- The pieces after another one. -/
def further : List Piece → List Char
  | [] => []
  | q :: rest => ' ' :: σ.pieces (q :: rest)

theorem pieces_cons (p : Piece) (rest : List Piece) :
    σ.pieces (p :: rest) = σ.piece p ++ σ.further rest := by
  cases rest with
  | nil => rw [pieces, further, List.append_nil]
  | cons q rest => rw [pieces, further]

def value : Option String → List Char
  | some v => ' ' :: '=' :: ' ' :: σ.word v
  | none => []

def rule (r : Rule) : List Char := σ.pieces r.pieces ++ σ.value r.value

/-! ## The printer's text -/

theorem toList_writtenCasing (m : Modifiers) : m.writtenCasing.toList = casing m := by
  unfold Modifiers.writtenCasing casing
  split <;> rfl

theorem toList_writtenPart (text : String) : (writtenPart text).toList = template.part text :=
  String.toList_ofList

theorem toList_writtenVariation (m : Modifiers) :
    m.writtenVariation.toList = template.variation m := by
  unfold Modifiers.writtenVariation variation
  cases m.variation with
  | none => rfl
  | some v => simp [String.toList_append, toList_writtenPart]

theorem toList_writtenGroup (m : Modifiers) : m.writtenGroup.toList = template.group m := by
  unfold Modifiers.writtenGroup group percent
  cases m.group with
  | none => rfl
  | some g => cases m.percent <;> simp [String.toList_append, toList_writtenPart]

theorem toList_writtenValue (v : Option String) : (writtenValue v).toList = template.value v := by
  cases v with
  | none => rfl
  | some v => simp [writtenValue, value, String.toList_append, writtenWord, word, template]

mutual

theorem toList_writtenPiece : ∀ p : Piece, p.Sound → p.written.toList = template.piece p
  | .word _, _ => String.toList_ofList
  | .group ps value m, ⟨_, sound, valueless, _⟩ => by
    have body := toList_writtenPieces ps sound
    have nothing : writtenValue value = "" := by rw [valueless]; rfl
    simp [Piece.written, piece, block, nothing, body, String.toList_append, toList_writtenCasing,
      toList_writtenGroup]
  | .reference kind name m, _ => by
    simp [Piece.written, piece, block, String.toList_append, toList_writtenCasing,
      toList_writtenPart, toList_writtenVariation, toList_writtenGroup]

theorem toList_writtenPieces : ∀ ps : List Piece, Piece.SoundAll ps →
    (Piece.writtenAll ps).toList = template.pieces ps
  | [], _ => rfl
  | [p], ⟨sound, _⟩ => by
    rw [Piece.writtenAll, pieces, toList_writtenPiece p sound]
  | p :: q :: rest, ⟨sound, others⟩ => by
    rw [Piece.writtenAll, pieces, String.toList_append, String.toList_append,
      toList_writtenPiece p sound, toList_writtenPieces (q :: rest) others]
    simp

end

theorem toList_written {r : Rule} (sound : r.Sound) : r.written.toList = template.rule r := by
  rw [Rule.written, String.toList_append, toList_writtenPieces r.pieces sound.pieces,
    toList_writtenValue, rule]

/-! ## Preparing a line -/

open Text

theorem prepared_word (text : String) : Prepared (template.word text) (line.word text) :=
  prepared_escape (by decide) (by simp [template, line, wordSpecials]; grind) (by decide) _

theorem prepared_part (text : String) : Prepared (template.part text) (line.part text) :=
  prepared_escape (by decide) (by simp [template, line, partSpecials]; grind) (by decide) _

theorem prepared_plain {s : List Char} (h : ∀ c ∈ s, c ≠ '\\' ∧ c ≠ ';') : Prepared s s := by
  induction s with
  | nil => exact .nil
  | cons c rest ih =>
    have first := h c List.mem_cons_self
    exact (prepared_singleton first.1 first.2).append
      (ih fun c hc => h c (List.mem_cons_of_mem _ hc))

theorem written_percent : ∀ n ≤ 100, (toString n).toList.all Char.isDigit = true ∧
    Block.percent? (toString n).toList = some (.ofNat n) := by
  decide

/-- A percentage is written in digits. -/
theorem isDigit_of_percent {p : UInt8} (h : p ≤ 100) {c : Char}
    (hc : c ∈ (toString p.toNat).toList) : c.isDigit = true :=
  List.all_eq_true.mp (written_percent p.toNat (UInt8.le_iff_toNat_le.mp h)).1 c hc

theorem plain_of_isDigit {c : Char} (h : c.isDigit = true) :
    c ∉ wordSpecials ∧ c ∉ partSpecials := by
  have other : ∀ d, Char.isDigit d = false → c ≠ d := fun d hd same => by simp [same, hd] at h
  simp [wordSpecials, partSpecials, other '[' rfl, other ']' rfl, other '\\' rfl, other ';' rfl,
    other '=' rfl, other '#' rfl, other '?' rfl, other '/' rfl]

theorem prepared_casing (m : Modifiers) : Prepared (casing m) (casing m) := by
  unfold casing
  split
  · exact prepared_singleton (by decide) (by decide)
  · exact .nil

theorem prepared_variation (m : Modifiers) :
    Prepared (template.variation m) (line.variation m) := by
  unfold variation
  cases m.variation with
  | none => exact .nil
  | some v => exact (prepared_singleton (by decide) (by decide)).append (prepared_part v)

theorem prepared_group {m : Modifiers} (sound : m.Sound) :
    Prepared (template.group m) (line.group m) := by
  have number : Prepared (percent m) (percent m) := by
    unfold percent
    cases h : m.percent with
    | none => exact .nil
    | some p =>
      refine prepared_plain fun c hc => ?_
      rcases List.mem_cons.mp hc with rfl | hc
      · decide
      · have other := (plain_of_isDigit (isDigit_of_percent (sound.percent p h).2 hc)).1
        constructor
        · rintro rfl
          exact other (by decide)
        · rintro rfl
          exact other (by decide)
  unfold group
  cases m.group with
  | none => exact .nil
  | some g =>
    exact (prepared_singleton (by decide) (by decide)).append ((prepared_part g).append number)

theorem prepared_block {s t : List Char} (h : Prepared s t) : Prepared (block s) (block t) :=
  (prepared_singleton (by decide) (by decide)).append
    (h.append (prepared_singleton (by decide) (by decide)))

mutual

theorem prepared_piece : ∀ p : Piece, p.Sound → Prepared (template.piece p) (line.piece p)
  | .word text, _ => prepared_word text
  | .group ps _ m, ⟨_, sound, _, modifiers⟩ =>
    prepared_block ((prepared_casing m).append
      ((prepared_pieces ps sound).append (prepared_group modifiers)))
  | .reference kind name m, ⟨_, modifiers⟩ => by
    have sigil : Prepared [kind.sigil] [kind.sigil] :=
      prepared_singleton (by cases kind <;> decide) (by cases kind <;> decide)
    have parts := (prepared_part name).append
      ((prepared_variation m).append (prepared_group modifiers))
    exact sigil.append (prepared_block ((prepared_casing m).append parts))

theorem prepared_pieces : ∀ ps : List Piece, Piece.SoundAll ps →
    Prepared (template.pieces ps) (line.pieces ps)
  | [], _ => .nil
  | [p], ⟨sound, _⟩ => prepared_piece p sound
  | p :: q :: rest, ⟨sound, others⟩ =>
    (prepared_piece p sound).append
      ((prepared_singleton (by decide) (by decide)).append (prepared_pieces (q :: rest) others))

end

theorem prepared_value (v : Option String) : Prepared (template.value v) (line.value v) := by
  cases v with
  | none => exact .nil
  | some v =>
    have mark : Prepared [' ', '=', ' '] [' ', '=', ' '] := prepared_plain (by simp)
    exact mark.append (prepared_word v)

theorem prepare_written {r : Rule} (sound : r.Sound) :
    prepare r.written.toList = line.rule r := by
  rw [toList_written sound]
  exact prepare_eq ((prepared_pieces r.pieces sound.pieces).append (prepared_value r.value))

/-! ## Balance -/

section
variable {σ : Spelling} {e p : Char → Prop}

theorem balanced_block {inner : List Char} (h : Paired inner) : Balanced e p (block inner) :=
  .nested h .nil

theorem paired_plain {s : List Char} (h : ∀ c ∈ s, c ∉ structural) : Paired s := by
  induction s with
  | nil => exact .nil
  | cons c rest ih =>
    obtain ⟨opens, closes, unescaped⟩ := not_mem_structural.mp (h c List.mem_cons_self)
    exact .plain unescaped opens closes trivial (ih fun c hc => h c (List.mem_cons_of_mem _ hc))

theorem paired_part (text : String) : Paired (σ.part text) :=
  balanced_escape σ.fenced (fun _ _ _ => trivial) fun _ _ _ => trivial

theorem paired_casing (m : Modifiers) : Paired (casing m) := by
  unfold casing
  split
  · exact paired_plain (by simp [structural])
  · exact .nil

theorem paired_variation (m : Modifiers) : Paired (σ.variation m) := by
  unfold variation
  cases m.variation with
  | none => exact .nil
  | some v =>
    have mark : Paired ['#'] := paired_plain (by simp [structural])
    exact mark.append (paired_part v)

theorem paired_group {m : Modifiers} (sound : m.Sound) : Paired (σ.group m) := by
  have number : Paired (percent m) := by
    unfold percent
    cases h : m.percent with
    | none => exact .nil
    | some p =>
      refine paired_plain fun c hc => ?_
      rcases List.mem_cons.mp hc with rfl | hc
      · decide
      · have other := (plain_of_isDigit (isDigit_of_percent (sound.percent p h).2 hc)).1
        have special : structural ⊆ wordSpecials := by decide
        exact fun known => other (special known)
  unfold group
  cases m.group with
  | none => exact .nil
  | some g =>
    have mark : Paired ['?'] := paired_plain (by simp [structural])
    exact mark.append ((paired_part g).append number)

theorem paired_reference (name : String) {m : Modifiers} (sound : m.Sound) :
    Paired (casing m ++ (σ.part name ++ (σ.variation m ++ σ.group m))) :=
  (paired_casing m).append
    ((paired_part name).append ((paired_variation m).append (paired_group sound)))

theorem paired_body {ps : List Piece} (body : Paired (σ.pieces ps)) {m : Modifiers}
    (sound : m.Sound) : Paired (casing m ++ (σ.pieces ps ++ σ.group m)) :=
  (paired_casing m).append (body.append (paired_group sound))

mutual

theorem balanced_piece : ∀ q : Piece, q.Sound → ∀ {e p : Char → Prop}, (∀ c ∈ σ.words, e c) →
    (∀ text, q = .word text → ∀ c ∈ text.toList, c ∉ σ.words → p c) → (∀ k : Kind, p k.sigil) →
    Balanced e p (σ.piece q)
  | .word text, _, _, _, he, hp, _ => balanced_escape σ.guarded (fun c _ => he c) (hp text rfl)
  | .group ps _ _, ⟨_, sound, _, modifiers⟩, _, _, _, _, _ =>
    have body : Paired (σ.pieces ps) :=
      balanced_pieces ps sound (fun _ _ => trivial) (fun _ _ _ _ _ => trivial) trivial
        fun _ => trivial
    balanced_block (paired_body body modifiers)
  | .reference kind name _, ⟨_, modifiers⟩, _, _, _, _, sigils =>
    .plain (by cases kind <;> decide) (by cases kind <;> decide) (by cases kind <;> decide)
      (sigils kind) (balanced_block (paired_reference name modifiers))

theorem balanced_pieces : ∀ ps : List Piece, Piece.SoundAll ps → ∀ {e p : Char → Prop},
    (∀ c ∈ σ.words, e c) →
    (∀ text, .word text ∈ ps → ∀ c ∈ text.toList, c ∉ σ.words → p c) → p ' ' →
    (∀ k : Kind, p k.sigil) → Balanced e p (σ.pieces ps)
  | [], _, _, _, _, _, _, _ => .nil
  | [q], ⟨sound, _⟩, _, _, he, hp, _, sigils =>
    balanced_piece q sound he (fun text same => hp text (same ▸ List.mem_cons_self)) sigils
  | q :: q' :: rest, ⟨sound, others⟩, _, _, he, hp, joint, sigils =>
    (balanced_piece q sound he (fun text same => hp text (same ▸ List.mem_cons_self)) sigils).append
      (.plain (by decide) (by decide) (by decide) joint
        (balanced_pieces (q' :: rest) others he
          (fun text known => hp text (List.mem_cons_of_mem _ known)) joint sigils))

end

theorem paired_pieces {ps : List Piece} (sound : Piece.SoundAll ps) : Paired (σ.pieces ps) :=
  balanced_pieces ps sound (fun _ _ => trivial) (fun _ _ _ _ _ => trivial) trivial fun _ => trivial

end
end Spelling
end Phrasebook
