import Phrasebook.Proofs.Spelling
import Phrasebook.Proofs.Declared
import Phrasebook.Proofs.Grammar

/-!
# What texts are made of

What is read from a text is made of its characters, and what is written of the characters of what is
written. So what is read from one line is written on one line.

* `Piece.letters`, `Rule.letters`: the characters of everything in a piece and in a rule that is
  written;
* `Rule.letters_subset`, `Declaration.read_subset`: they stand in the text that it was read from;
* `Spelling.feed_mem_rule`: a line feed is written only where it stands among them;
* `Store.lined_of_declares`: no name and no rule of a store that a template declares holds one.
-/

namespace Phrasebook

namespace Modifiers

def letters (m : Modifiers) : List Char :=
  m.variation.elim [] String.toList ++ m.group.elim [] String.toList

end Modifiers

namespace Piece

mutual

def letters : Piece → List Char
  | word text => text.toList
  | group pieces _ m => lettersOf pieces ++ m.letters
  | reference _ name m => name.toList ++ m.letters

def lettersOf : List Piece → List Char
  | [] => []
  | p :: rest => p.letters ++ lettersOf rest

end

end Piece

def Rule.letters (r : Rule) : List Char :=
  Piece.lettersOf r.pieces ++ r.value.elim [] String.toList

/-! ## Reading -/

namespace Text

theorem unescape_subset (s : List Char) : unescape s ⊆ s := by
  fun_induction unescape s <;> grind

theorem eq_of_opening? {s marks inside : List Char} (h : opening? s = some (marks, inside)) :
    s = marks ++ inside := by
  unfold opening? at h
  split at h
  · cases h
    rfl
  · split at h
    · cases h
      rfl
    · cases h
  · cases h

theorem eq_of_throughClosing? {depth : Nat} {s inner after : List Char}
    (h : throughClosing? depth s = some (inner, after)) : s = inner ++ after := by
  fun_induction throughClosing? depth s generalizing inner after with
  | case1 => cases h
  | case2 depth c rest ih =>
    obtain ⟨⟨a, b⟩, found, same⟩ := Option.map_eq_some_iff.mp h
    cases same
    rw [ih found]
    rfl
  | case3 =>
    cases h
    rfl
  | case4 depth c rest _ _ ih =>
    obtain ⟨⟨a, b⟩, found, same⟩ := Option.map_eq_some_iff.mp h
    cases same
    rw [ih found]
    rfl

theorem eq_of_splitOutside? {mark : Char} {depth : Nat} {s before after : List Char}
    (h : splitOutside? mark depth s = some (before, after)) : s = before ++ mark :: after := by
  fun_induction splitOutside? mark depth s generalizing before after with
  | case1 => cases h
  | case2 depth c rest ih =>
    obtain ⟨⟨a, b⟩, found, same⟩ := Option.map_eq_some_iff.mp h
    cases same
    rw [ih found]
    rfl
  | case3 depth c rest _ here =>
    cases h
    have same : c = mark ∧ depth = 0 := by simpa using here
    rw [same.1]
    rfl
  | case4 depth c rest _ _ ih =>
    obtain ⟨⟨a, b⟩, found, same⟩ := Option.map_eq_some_iff.mp h
    cases same
    rw [ih found]
    rfl

theorem eq_of_splitAtMark? {mark : Char} {s before after : List Char}
    (h : splitAtMark? mark s = some (before, after)) : s = before ++ mark :: after := by
  fun_induction splitAtMark? mark s generalizing before after with
  | case1 => cases h
  | case2 c rest ih =>
    obtain ⟨⟨a, b⟩, found, same⟩ := Option.map_eq_some_iff.mp h
    cases same
    rw [ih found]
    rfl
  | case3 =>
    cases h
    rfl
  | case4 c rest _ _ ih =>
    obtain ⟨⟨a, b⟩, found, same⟩ := Option.map_eq_some_iff.mp h
    cases same
    rw [ih found]
    rfl

end Text

open Text

namespace Block

theorem name_subset (p : Parts) : p.name ⊆ p.text := by
  intro c hc
  simp [Parts.text, Parts.inside, hc]

theorem rest_subset (p : Parts) : p.rest ⊆ p.text := by
  intro c hc
  simp [Parts.text, Parts.inside, hc]

theorem title_subset (p : Parts) : p.title ⊆ p.text := by
  unfold Parts.title
  split
  · exact fun c hc => name_subset p (mem_trim hc)
  · exact fun c hc => name_subset p (unescape_subset p.name hc)

theorem modifiers_subset (p : Parts) : p.block.modifiers.letters ⊆ p.rest := by
  intro c hc
  rcases List.mem_append.mp hc with varied | grouped
  · cases same : p.variation with
    | none => simp [Parts.block, same] at varied
    | some v =>
      have there : c ∈ unescape v := by simpa [Parts.block, same] using varied
      simp [Parts.rest, Parts.writtenVariation, same, unescape_subset v there]
  · cases same : p.inclusion with
    | none => simp [Parts.block, same] at grouped
    | some i =>
      have there : c ∈ unescape i.1 := by simpa [Parts.block, same] using grouped
      simp [Parts.rest, Parts.writtenInclusion, same, unescape_subset i.1 there]

/-- What a block says is made of its characters. -/
theorem read_subset {text : List Char} {b : Block} (h : read text = .ok b) :
    b.name.toList ⊆ text ∧ b.modifiers.letters ⊆ text := by
  obtain ⟨kind, inner, rfl, whole, reads⟩ := read_eq_ok_iff.mp h
  obtain ⟨p, _, rfl, rfl, rfl⟩ := (ofInside_iff whole).mp reads
  constructor
  · rw [show p.block.name = .ofList p.title from rfl, String.toList_ofList]
    exact title_subset p
  · exact fun c hc => rest_subset p (modifiers_subset p hc)

end Block

theorem lettersOf_flush (word : List Char) (pieces : List Piece) :
    Piece.lettersOf (flush word pieces) ⊆ word ++ Piece.lettersOf pieces := by
  unfold flush
  split
  · exact List.subset_append_right _ _
  · simp [Piece.lettersOf, Piece.letters]

theorem Reads.letters_subset {word s : List Char} {pieces : List Piece} (h : Reads word s pieces) :
    Piece.lettersOf pieces ⊆ word ++ s := by
  induction h with
  | @nil word => exact lettersOf_flush word []
  | escaped _ ih =>
    intro c hc
    have there := ih hc
    grind
  | @reference word s marks inside inner after b kind pieces opens closes block _ _ ih =>
    obtain ⟨named, modified⟩ := Block.read_subset block
    rw [eq_of_opening? opens, eq_of_throughClosing? closes]
    intro c hc
    have there := lettersOf_flush _ _ hc
    simp only [Piece.lettersOf, Piece.letters, List.mem_append] at there
    grind
  | @group word s marks inside inner after b body pieces opens closes block _ _ _ _ ih ih' =>
    obtain ⟨named, modified⟩ := Block.read_subset block
    rw [eq_of_opening? opens, eq_of_throughClosing? closes]
    intro c hc
    have there := lettersOf_flush _ _ hc
    simp only [Piece.lettersOf, Piece.letters, List.mem_append] at there
    grind
  | blank _ _ _ ih =>
    intro c hc
    have there := lettersOf_flush _ _ hc
    grind
  | char _ _ _ _ _ ih =>
    intro c hc
    have there := ih hc
    grind

namespace Rule

theorem letters_of_read {text : String} {r : Rule} (h : read text = .ok r) :
    r.letters ⊆ text.toList := by
  obtain ⟨read, _, bare⟩ := read_eq_ok.mp h
  rw [letters, bare, Option.elim_none, List.append_nil]
  exact read.letters_subset

theorem letters_of_readSlot {text : String} {r : Rule} (h : readSlot text = .ok r) :
    r.letters ⊆ text.toList := by
  unfold readSlot at h
  split at h
  · exact letters_of_read h
  · next phrase value split =>
    dsimp only at h
    split at h
    · cases h
    · obtain ⟨r, read, h⟩ := bind_eq_ok.mp h
      cases h
      obtain ⟨read, _, _⟩ := read_eq_ok.mp read
      have pieces := read.letters_subset
      rw [String.toList_ofList, List.nil_append] at pieces
      rw [eq_of_splitOutside? split]
      intro c hc
      rcases List.mem_append.mp hc with phrased | valued
      · exact List.mem_append_left _ (mem_trimEnd (pieces phrased))
      · rw [Option.elim_some, String.toList_ofList] at valued
        have there := mem_trim (unescape_subset _ valued)
        exact List.mem_append_right _ (List.mem_cons_of_mem _ there)

/-- A rule is made of the characters of its text. -/
theorem letters_subset {kind : Kind} {text : String} {r : Rule} (h : readFor kind text = .ok r) :
    r.letters ⊆ text.toList := by
  unfold readFor at h
  split at h
  · exact letters_of_readSlot h
  · exact letters_of_read h

end Rule

/-- The names of a declaration stand in its head. -/
theorem Declaration.read_subset {text : List Char} {d : Declaration} (h : read text = .ok d) :
    allBlank d.name.toList = false ∧ d.name.toList ⊆ text ∧
      ∀ n, d.variation.name = some n → n.toList ⊆ text := by
  simp only [read] at h
  split at h
  · cases h
  · next before after split =>
    obtain ⟨block, reads, h⟩ := bind_eq_ok.mp h
    split at h
    · cases h
    · split at h
      · cases h
      · obtain ⟨count, _, h⟩ := bind_eq_ok.mp h
        cases h
        obtain ⟨named, modified⟩ := Block.read_subset reads
        have whole : before ++ [']'] ⊆ text := by
          rw [eq_of_splitAtMark? split]
          simp
        refine ⟨(Block.read_sound reads).2, List.Subset.trans named whole, fun n varied c hc => ?_⟩
        have varied : block.modifiers.variation = some n := varied
        refine whole (modified ?_)
        simp [Modifiers.letters, varied, hc]

/-! ## Writing -/

namespace Spelling

variable {σ : Spelling} {text : String} {m : Modifiers}

theorem feed_mem_escape {special s : List Char} (h : '\n' ∈ escape special s) : '\n' ∈ s := by
  obtain ⟨c, hc, here⟩ := List.mem_flatMap.mp h
  split at here
  · have same : '\n' = c := by simpa using here
    exact same ▸ hc
  · have same : '\n' = c := by simpa using here
    exact same ▸ hc

theorem feed_mem_word (h : '\n' ∈ σ.word text) : '\n' ∈ text.toList := feed_mem_escape h

theorem feed_mem_part (h : '\n' ∈ σ.part text) : '\n' ∈ text.toList := feed_mem_escape h

theorem feed_not_mem_casing : '\n' ∉ casing m := by
  unfold casing
  split <;> decide

theorem feed_mem_modifiers (sound : m.Sound) (h : '\n' ∈ σ.variation m ++ σ.group m) :
    '\n' ∈ m.letters := by
  unfold Modifiers.letters
  rcases List.mem_append.mp h with varied | grouped
  · unfold variation at varied
    split at varied
    · next v same =>
      have there : '\n' ∈ σ.part v := by simpa using varied
      simp [same, feed_mem_part there]
    · cases varied
  · unfold group at grouped
    split at grouped
    · next g same =>
      have number : '\n' ∉ percent m := by
        unfold percent
        split
        · next p chance =>
          intro there
          have digit : '\n' ∈ (toString p.toNat).toList := by simpa using there
          have := isDigit_of_percent (sound.percent p chance).2 digit
          cases this
        · exact List.not_mem_nil
      have there : '\n' ∈ σ.part g := by simpa [number] using grouped
      simp [same, feed_mem_part there]
    · cases grouped

mutual

theorem feed_mem_piece : ∀ p : Piece, p.Sound → '\n' ∈ σ.piece p → '\n' ∈ p.letters
  | .word _, _, h => feed_mem_word h
  | .group ps _ m, ⟨_, sound, _, modifiers⟩, h => by
    have inside : '\n' ∈ σ.pieces ps ∨ '\n' ∈ σ.group m := by
      simpa [piece, block, feed_not_mem_casing] using h
    rcases inside with body | grouped
    · exact List.mem_append_left _ (feed_mem_pieces ps sound body)
    · exact List.mem_append_right _
        (feed_mem_modifiers modifiers (List.mem_append_right _ grouped))
  | .reference kind name m, ⟨_, modifiers⟩, h => by
    have sigil : kind.sigil ≠ '\n' := by cases kind <;> decide
    have inside : '\n' ∈ σ.part name ∨ '\n' ∈ σ.variation m ++ σ.group m := by
      simpa [piece, block, feed_not_mem_casing, sigil.symm] using h
    rcases inside with named | modified
    · exact List.mem_append_left _ (feed_mem_part named)
    · exact List.mem_append_right _ (feed_mem_modifiers modifiers modified)

theorem feed_mem_pieces : ∀ ps : List Piece, Piece.SoundAll ps → '\n' ∈ σ.pieces ps →
    '\n' ∈ Piece.lettersOf ps
  | [], _, h => by cases h
  | [p], ⟨sound, _⟩, h => List.mem_append_left _ (feed_mem_piece p sound h)
  | p :: q :: rest, ⟨sound, others⟩, h => by
    have apart : '\n' ∈ σ.piece p ∨ '\n' ∈ σ.pieces (q :: rest) := by simpa [pieces] using h
    rcases apart with first | later
    · exact List.mem_append_left _ (feed_mem_piece p sound first)
    · exact List.mem_append_right _ (feed_mem_pieces (q :: rest) others later)

end

/-- A line feed is written only where one of the texts in the rule holds it. -/
theorem feed_mem_rule {r : Rule} (sound : r.Sound) (h : '\n' ∈ σ.rule r) : '\n' ∈ r.letters := by
  rcases List.mem_append.mp h with pieces | valued
  · exact List.mem_append_left _ (feed_mem_pieces r.pieces sound.pieces pieces)
  · cases same : r.value with
    | none => simp [same, value] at valued
    | some v =>
      have there : '\n' ∈ σ.word v := by simpa [same, value] using valued
      refine List.mem_append_right _ ?_
      rw [same]
      exact feed_mem_word there

end Spelling

/-! ## Stores -/

/-- A variation that can be written with a line for its head and one for each rule. -/
structure Variation.Lined (v : Variation) : Prop where
  name : ∀ n, v.name = some n → '\n' ∉ n.toList
  rules : ∀ r ∈ v.rules, '\n' ∉ r.letters

structure Definition.Lined (name : String) (d : Definition) : Prop where
  named : allBlank name.toList = false
  name : '\n' ∉ name.toList
  variations : ∀ v ∈ d.variations, v.Lined

def Store.Lined (s : Store) : Prop :=
  ∀ kind name d, s.find? kind name = some d → d.Lined name

theorem Declaration.Written.lined {decl : Declaration} (written : decl.Written) :
    allBlank decl.name.toList = false ∧ '\n' ∉ decl.name.toList ∧ decl.variation.Lined := by
  obtain ⟨text, start, feedless, read, same⟩ := written.head
  obtain ⟨named, name, varied⟩ := Declaration.read_subset read
  rw [same]
  refine ⟨named, fun there => feedless (name there), fun n given there => ?_, fun r hr => ?_⟩
  · exact feedless (varied n given there)
  · obtain ⟨line, feedless, reads⟩ := written.rules r hr
    exact fun there => feedless (Rule.letters_subset reads there)

namespace Store

theorem lined_declare {s grown : Store} {decl : Declaration} (written : decl.Written)
    (declared : s.declare decl = .ok grown) (h : s.Lined) : grown.Lined := by
  obtain ⟨_, rfl⟩ := declare_eq_ok.mp declared
  obtain ⟨named, name, lined⟩ := written.lined
  intro kind other d found
  rw [find?_put] at found
  split at found
  · next here =>
    cases found
    rw [here.2]
    refine ⟨named, name, fun v hv => ?_⟩
    rcases List.mem_append.mp hv with old | new
    · cases there : s.find? decl.kind decl.name with
      | none =>
        rw [grows, there] at old
        cases old
      | some before =>
        rw [grows, there] at old
        exact (h _ _ _ there).variations v old
    · exact List.mem_singleton.mp new ▸ lined
  · exact h kind other d found

/-- Whatever a template declares can be written line by line. -/
theorem lined_of_declares {s : Store} (h : (∅ : Store).Declares s) : s.Lined := by
  refine h.keeps ?_ ?_
  · intro s decl grown written declared
    exact lined_declare written declared
  · intro kind name d found
    cases kind <;> cases found

end Store
end Phrasebook
