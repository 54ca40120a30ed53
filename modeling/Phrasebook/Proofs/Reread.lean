import Phrasebook.Proofs.Rereadable

/-!
# Writing a rule and reading it again

Reading a rule that was written gives it back, but for the variation of its groups, just when it is
rereadable.

* `reads_pieces`: so it is for the pieces of a rule, by induction on what stands in its groups;
* `readSlot_spelled`: and for a rule with its value, in every spelling;
* `readSlot_written`: the printer's text, and the same text prepared as a line, are two of them.
-/

namespace Phrasebook

open Text

variable {σ : Spelling} {begun t : List Char} {ps rest : List Piece} {m : Modifiers}

/-! ## The text of the pieces -/

namespace Piece

theorem word_mem_erasedAll {text : String} (h : word text ∈ ps) : word text ∈ erasedAll ps := by
  induction ps with
  | nil => cases h
  | cons p rest ih =>
    rcases List.mem_cons.mp h with rfl | h
    · exact List.mem_cons_self
    · exact List.mem_cons_of_mem _ (ih h)

theorem erasedAll_ne_nil (h : ps ≠ []) : erasedAll ps ≠ [] := by
  cases ps with
  | nil => exact absurd rfl h
  | cons p rest => exact List.cons_ne_nil _ _

theorem made_of_words {good : Char → Prop}
    (h : ∀ text, word text ∈ ps → ∀ c ∈ text.toList, good c) : ∀ p ∈ ps, p.Made good := by
  intro p hp
  cases p with
  | word text => exact h text hp
  | group pieces value m => trivial
  | reference kind name m => trivial

theorem Rereadable.visible {p : Piece} (h : p.Rereadable) : p.Made (isBlank · = false) := by
  cases p with
  | word text => exact h
  | group pieces value m => trivial
  | reference kind name m => trivial

theorem RereadableAll.visible (h : RereadableAll ps) : ∀ p ∈ ps, p.Made (isBlank · = false) := by
  induction ps with
  | nil => nofun
  | cons p rest ih =>
    intro q hq
    rcases List.mem_cons.mp hq with rfl | hq
    · exact h.1.visible
    · exact ih h.2 q hq

end Piece

namespace Spelling

theorem not_blank_of_mem {c : Char} (h : c ∈ σ.words) :
    isBlank c = false ∧ Block.isStop c = false ∧ c ≠ '&' := by
  have known : wordSpecials.all fun c => !isBlank c && !Block.isStop c && c != '&' := by decide
  simpa [and_assoc] using List.all_eq_true.mp known c (σ.few h)

theorem sigil_plain (kind : Kind) :
    isBlank kind.sigil = false ∧ Block.isStop kind.sigil = false ∧ kind.sigil ≠ '&' := by
  cases kind <;> decide

/-- A piece is written as something, and only a word begins with an ampersand or in a blank. -/
theorem piece_front (σ : Spelling) {p : Piece} (sound : p.Sound) :
    ∃ c rest, σ.piece p = c :: rest ∧ (c = '&' ↔ Piece.Marked [p]) ∧
      (p.Made (isBlank · = false) → isBlank c = false) := by
  cases p with
  | word text =>
    cases written : text.toList with
    | nil =>
      have same : text = "" := by rw [← String.ofList_toList (s := text), written]
      exact absurd same sound
    | cons c rest =>
      by_cases special : c ∈ σ.words
      · obtain ⟨visible, _, other⟩ := not_blank_of_mem special
        refine ⟨'\\', c :: escape σ.words rest, ?_, ?_, fun _ => by decide⟩
        · rw [piece, Spelling.word, written, escape_cons_of_mem special]
        · simp [Piece.Marked, written, other]
      · refine ⟨c, escape σ.words rest, ?_, ?_, fun visible => ?_⟩
        · rw [piece, Spelling.word, written, escape_cons_of_not_mem special]
        · simp [Piece.Marked, written]
        · exact visible c (by rw [written]; exact List.mem_cons_self)
  | group pieces value m =>
    exact ⟨'[', _, rfl, by simp [Piece.Marked], fun _ => by decide⟩
  | reference kind name m =>
    obtain ⟨visible, _, other⟩ := sigil_plain kind
    exact ⟨kind.sigil, _, rfl, by simp [Piece.Marked, other], fun _ => visible⟩

theorem pieces_head_marked (σ : Spelling) (nonempty : ps ≠ []) (sound : Piece.SoundAll ps)
    (t : List Char) : (σ.pieces ps ++ t).head? = some '&' ↔ Piece.Marked ps := by
  cases ps with
  | nil => exact absurd rfl nonempty
  | cons p rest =>
    obtain ⟨c, text, written, marked, _⟩ := piece_front σ sound.1
    rw [pieces_cons, written]
    cases p <;> simpa [Piece.Marked] using marked

theorem pieces_head_visible (σ : Spelling) (sound : Piece.SoundAll ps)
    (visible : ∀ p ∈ ps, p.Made (isBlank · = false)) :
    ∀ c ∈ (σ.pieces ps).head?, isBlank c = false := by
  cases ps with
  | nil => nofun
  | cons p rest =>
    obtain ⟨c, text, written, _, front⟩ := piece_front σ sound.1
    rw [pieces_cons, written]
    rintro d ⟨⟩
    exact front (visible p List.mem_cons_self)

theorem piece_last_visible (σ : Spelling) {p : Piece} (visible : p.Made (isBlank · = false)) :
    ∀ c ∈ (σ.piece p).getLast?, isBlank c = false := by
  have block_last : ∀ inner, (block inner).getLast? = some ']' := fun inner => by
    simp [block, List.getLast?_cons]
  intro c last
  cases p with
  | word text =>
    rw [piece, Spelling.word, getLast?_escape] at last
    exact visible c (List.mem_of_getLast? last)
  | group pieces value m =>
    rw [piece, block_last] at last
    cases last
    decide
  | reference kind name m =>
    rw [piece, List.getLast?_cons, block_last, Option.getD_some] at last
    cases last
    decide

theorem pieces_last_visible (σ : Spelling) (sound : Piece.SoundAll ps)
    (visible : ∀ p ∈ ps, p.Made (isBlank · = false)) :
    ∀ c ∈ (σ.pieces ps).getLast?, isBlank c = false := by
  induction ps with
  | nil => nofun
  | cons p rest ih =>
    intro c last
    rw [pieces_cons] at last
    cases rest with
    | nil =>
      rw [further, List.append_nil] at last
      exact piece_last_visible σ (visible p List.mem_cons_self) c last
    | cons q rest =>
      refine ih sound.2 (fun p hp => visible p (List.mem_cons_of_mem _ hp)) c ?_
      obtain ⟨d, text, written, _⟩ := piece_front σ sound.2.1
      have after : σ.pieces (q :: rest) = d :: (text ++ σ.further rest) := by
        rw [pieces_cons, written, List.cons_append]
      rw [further, after] at last
      rw [after]
      simpa [List.getLast?_cons] using last

theorem trim_pieces (σ : Spelling) (sound : Piece.SoundAll ps)
    (visible : ∀ p ∈ ps, p.Made (isBlank · = false)) : trim (σ.pieces ps) = σ.pieces ps :=
  (trim_eq_self_iff (pieces_last_visible σ sound visible)).mpr (pieces_head_visible σ sound visible)

end Spelling

/-! ## The body of a group -/

namespace Block

theorem unmarked_of_readCasing (nonempty : ps ≠ []) (sound : Piece.SoundAll ps)
    (cased : (readCasing (Spelling.casing m ++ (σ.pieces ps ++ σ.group m))).1 = m.casing) :
    m.casing = false → ¬ Piece.Marked ps :=
  fun unmarked marked => head_of_readCasing cased unmarked
    ((Spelling.pieces_head_marked σ nonempty sound _).mpr marked)

theorem readCasing_group (nonempty : ps ≠ []) (sound : Piece.SoundAll ps)
    (unmarked : m.casing = false → ¬ Piece.Marked ps) :
    readCasing (Spelling.casing m ++ (σ.pieces ps ++ σ.group m)) =
      (m.casing, σ.pieces ps ++ σ.group m) :=
  readCasing_spelled fun cased front =>
    unmarked cased ((Spelling.pieces_head_marked σ nonempty sound _).mp front)

/-- The words of the body that a group is read with hold neither blanks nor stops. -/
theorem readName_loose (sound : Piece.SoundAll ps) {name after : List Char}
    (named : readName true (σ.pieces ps ++ σ.group m) = .ok (name, after)) :
    Loose (fun c => isBlank c = false ∧ isStop c = false) 0 name := by
  obtain ⟨raw, read, rfl, _⟩ := readName_eq_ok.mp named
  have balanced : Balanced (fun c => isBlank c = false ∧ isStop c = false) (fun _ => True)
      (σ.pieces ps) :=
    Spelling.balanced_pieces ps sound
      (fun c hc => have plain := Spelling.not_blank_of_mem hc; ⟨plain.1, plain.2.1⟩)
      (fun _ _ _ _ _ => trivial) trivial (fun _ => trivial)
  have loose := part_loose ⟨by decide, by decide⟩ balanced (fun _ h => h)
    (fun c _ stop visible => ⟨visible, stop⟩) ends_group read
  exact loose_trimEnd ⟨by decide, by decide⟩ (loose_trimStart loose)

/-- Without blanks and stops in its words, the body of a group is read as it was written. -/
theorem readName_group (nonempty : ps ≠ []) (sound : Piece.SoundAll ps)
    (visible : ∀ p ∈ ps, p.Made (isBlank · = false))
    (stopless : ∀ p ∈ ps, p.Made (isStop · = false)) :
    readName true (σ.pieces ps ++ σ.group m) = .ok (σ.pieces ps, σ.group m) := by
  have balanced : Balanced (fun _ => True) (fun c => isStop c = false) (σ.pieces ps) :=
    Spelling.balanced_pieces ps sound (fun _ _ => trivial)
      (fun text known c hc _ => stopless _ known c hc) rfl
      (fun kind => (Spelling.sigil_plain kind).2.1)
  have whole : part true 0 (σ.pieces ps ++ σ.group m) = .ok (σ.pieces ps, σ.group m) :=
    part_balanced balanced (fun _ h => h) ends_group
  have filled : allBlank (σ.pieces ps) = false := by
    cases ps with
    | nil => exact absurd rfl nonempty
    | cons p rest =>
      obtain ⟨c, text, written, _, front⟩ := Spelling.piece_front σ sound.1
      simp [Spelling.pieces_cons, written, allBlank, front (visible p List.mem_cons_self)]
  have trimmed := Spelling.trim_pieces σ sound visible
  exact readName_eq_ok.mpr ⟨_, whole, trimmed.symm, filled⟩

end Block

/-! ## Reading the pieces -/

theorem reads_further {later : List Piece} :
    Reads begun (σ.further rest) later ↔
      ∃ pieces, Reads [] (σ.pieces rest) pieces ∧ later = flush begun pieces := by
  cases rest with
  | nil =>
    rw [Spelling.further, Spelling.pieces, reads_nil]
    constructor
    · intro h
      exact ⟨[], reads_nil.mpr rfl, h⟩
    · rintro ⟨pieces, none, rfl⟩
      rw [reads_nil.mp none]
      rfl
  | cons q rest => exact reads_blank (by decide)

theorem further_head (σ : Spelling) (rest : List Piece) : (σ.further rest).head? ≠ some '[' := by
  cases rest with
  | nil => nofun
  | cons q rest => nofun

theorem reads_word {s : List Char} {pieces : List Piece}
    (visible : ∀ c ∈ s, isBlank c = false) (next : t.head? ≠ some '[') :
    Reads begun (escape σ.words s ++ t) pieces ↔ Reads (s.reverse ++ begun) t pieces := by
  induction s generalizing begun with
  | nil => rfl
  | cons c rest ih =>
    have after : Reads (c :: begun) (escape σ.words rest ++ t) pieces ↔
        Reads ((c :: rest).reverse ++ begun) t pieces := by
      rw [ih fun c hc => visible c (List.mem_cons_of_mem _ hc), List.reverse_cons,
        List.append_assoc, List.singleton_append]
    rw [← after]
    by_cases special : c ∈ σ.words
    · rw [escape_cons_of_mem special]
      exact reads_escaped
    · rw [escape_cons_of_not_mem special]
      obtain ⟨opens, closes, unescaped⟩ := ordinary_of_not_mem σ.guarded special
      refine reads_char unescaped opens closes (visible c List.mem_cons_self) ?_
      cases rest with
      | nil => exact next
      | cons d rest =>
        by_cases special' : d ∈ σ.words
        · rw [escape_cons_of_mem special']
          nofun
        · rw [escape_cons_of_not_mem special']
          intro front
          have same : d = '[' := by simpa using front
          exact special' (σ.guarded (same ▸ by decide))

theorem reads_pieces_word {text : String} (filled : text ≠ "")
    (visible : ∀ c ∈ text.toList, isBlank c = false) {later : List Piece} :
    Reads [] (σ.pieces (.word text :: rest)) (.word text :: later) ↔
      Reads [] (σ.pieces rest) later := by
  have flushed : ∀ pieces, flush (text.toList.reverse ++ []) pieces = .word text :: pieces := by
    intro pieces
    have some : text.toList ≠ [] := by simpa using filled
    simp [flush, some]
  rw [Spelling.pieces_cons, Spelling.piece, Spelling.word,
    reads_word visible (further_head σ rest), reads_further]
  constructor
  · rintro ⟨pieces, read, same⟩
    rw [flushed] at same
    cases same
    exact read
  · intro read
    exact ⟨later, read, (flushed later).symm⟩

theorem reads_pieces_reference {kind : Kind} {name : String}
    (sound : (Piece.reference kind name m).Sound) {later : List Piece} :
    Reads [] (σ.pieces (.reference kind name m :: rest)) (.reference kind name m :: later) ↔
      (Piece.reference kind name m).Rereadable ∧ Reads [] (σ.pieces rest) later := by
  have text : σ.pieces (.reference kind name m :: rest) = kind.sigil :: '[' ::
      (Spelling.casing m ++ (σ.part name ++ (σ.variation m ++ σ.group m)) ++
        ']' :: σ.further rest) := by
    simp [Spelling.pieces_cons, Spelling.piece, Spelling.block]
  have block : Block.ofInside (some kind)
      (Spelling.casing m ++ (σ.part name ++ (σ.variation m ++ σ.group m))) =
        .ok ⟨some kind, name, m⟩ ↔ (Piece.reference kind name m).Rereadable :=
    Block.ofInside_reference kind sound.1 sound.2
  rw [text, reads_reference kind (Spelling.paired_reference name sound.2)]
  constructor
  · rintro ⟨b, after, inside, read, same⟩
    obtain ⟨pieces, read, rfl⟩ := reads_further.mp read
    have known := Block.kind_of_ofInside inside
    obtain ⟨kind', name', m'⟩ := b
    cases known
    cases same
    exact ⟨block.mp inside, read⟩
  · rintro ⟨rereadable, read⟩
    exact ⟨_, later, block.mpr rereadable, reads_further.mpr ⟨later, read, rfl⟩, rfl⟩

theorem reads_pieces_group {value : Option String} (sound : (Piece.group ps value m).Sound)
    (body : (∀ p ∈ ps, p.Made (isBlank · = false)) →
      (Reads [] (σ.pieces ps) (Piece.erasedAll ps) ↔ Piece.RereadableAll ps))
    {later : List Piece} :
    Reads [] (σ.pieces (.group ps value m :: rest)) ((Piece.group ps value m).erased :: later) ↔
      (Piece.group ps value m).Rereadable ∧ Reads [] (σ.pieces rest) later := by
  obtain ⟨nonempty, sound, rfl, modifiers⟩ := sound
  have text : σ.pieces (.group ps none m :: rest) = '[' ::
      (Spelling.casing m ++ (σ.pieces ps ++ σ.group m) ++ ']' :: σ.further rest) := by
    simp [Spelling.pieces_cons, Spelling.piece, Spelling.block]
  have balanced := Spelling.paired_body (Spelling.paired_pieces (σ := σ) sound) modifiers
  rw [text, reads_group balanced]
  constructor
  · rintro ⟨b, pieces, after, inside, named, _, following, same⟩
    obtain ⟨others, read, rfl⟩ := reads_further.mp following
    obtain ⟨name, _, _, _, _, _, read', _, _, rfl⟩ := Block.ofInside_eq_ok.mp inside
    obtain ⟨front, rfl⟩ := List.cons.inj same
    obtain ⟨rfl, _, same⟩ := Piece.group.inj front
    have cased := (congrArg Modifiers.casing same).symm
    have unmarked := Block.unmarked_of_readCasing nonempty sound cased
    rw [Block.readCasing_group nonempty sound unmarked] at read'
    rw [String.toList_ofList] at named
    -- what the words hold comes first: only then is the body known to be read as a whole
    have words := named.loose (by simp) (Block.readName_loose sound read')
    have visible : ∀ p ∈ ps, p.Made (isBlank · = false) :=
      Piece.made_of_words fun text known c hc =>
        (words text (Piece.word_mem_erasedAll known) c hc).1
    have stopless : ∀ p ∈ ps, p.Made (Block.isStop · = false) :=
      Piece.made_of_words fun text known c hc =>
        (words text (Piece.word_mem_erasedAll known) c hc).2
    rw [show (none : Option Kind).isNone = true from rfl,
      Block.readName_group nonempty sound visible stopless] at read'
    cases read'
    exact ⟨⟨unmarked, stopless, (body visible).mp named⟩, read⟩
  · rintro ⟨⟨unmarked, stopless, rereadable⟩, read⟩
    have visible := rereadable.visible
    have casing := Block.readCasing_group nonempty sound unmarked (σ := σ)
    have named : Reads [] (String.ofList (σ.pieces ps)).toList (Piece.erasedAll ps) := by
      rw [String.toList_ofList]
      exact (body visible).mpr rereadable
    refine ⟨⟨none, .ofList (σ.pieces ps), { m with variation := none }⟩, _, later, ?_, named,
      Piece.erasedAll_ne_nil nonempty, reads_further.mpr ⟨later, read, rfl⟩, rfl⟩
    rw [Block.ofInside_eq_ok, casing]
    exact ⟨_, _, _, _, _, _, Block.readName_group nonempty sound visible stopless,
      Block.readVariation_none (Block.group_head σ m), Block.readInclusion_spelled modifiers, rfl⟩

mutual

theorem reads_pieces_cons : ∀ p : Piece, p.Sound → p.Made (isBlank · = false) →
    ∀ rest later, Reads [] (σ.pieces (p :: rest)) (p.erased :: later) ↔
      p.Rereadable ∧ Reads [] (σ.pieces rest) later
  | .word _, filled, visible, _, _ =>
    (reads_pieces_word filled visible).trans ⟨fun h => ⟨visible, h⟩, fun h => h.2⟩
  | .group ps _ _, sound, _, _, _ => reads_pieces_group sound (reads_visible ps sound.2.1)
  | .reference _ _ _, sound, _, _, _ => reads_pieces_reference sound

/-- Pieces whose words hold no blanks are read piece by piece. -/
theorem reads_visible : ∀ ps : List Piece, Piece.SoundAll ps →
    (∀ p ∈ ps, p.Made (isBlank · = false)) →
    (Reads [] (σ.pieces ps) (Piece.erasedAll ps) ↔ Piece.RereadableAll ps)
  | [], _, _ => ⟨fun _ => trivial, fun _ => reads_nil.mpr rfl⟩
  | p :: rest, ⟨sound, others⟩, visible => by
    have first := reads_pieces_cons p sound (visible p List.mem_cons_self) rest
      (Piece.erasedAll rest)
    have after := reads_visible rest others fun q hq => visible q (List.mem_cons_of_mem _ hq)
    exact first.trans (and_congr_right fun _ => after)

end

/-- Blanks are never escaped, so that nothing is read as a word with one. -/
theorem visible_of_reads {s : List Char} (sound : Piece.SoundAll ps) (h : s <+: σ.pieces ps)
    (read : Reads [] s (Piece.erasedAll ps)) : ∀ p ∈ ps, p.Made (isBlank · = false) := by
  have balanced : Balanced (isBlank · = false) (fun _ => True) (σ.pieces ps) :=
    Spelling.balanced_pieces ps sound (fun c hc => (Spelling.not_blank_of_mem hc).1)
      (fun _ _ _ _ _ => trivial) trivial fun _ => trivial
  have loose : Loose (isBlank · = false) 0 (σ.pieces ps) :=
    balanced.loose (by decide) (fun _ h => h) fun _ _ h => h
  obtain ⟨t, whole⟩ := h
  rw [← whole] at loose
  have words := read.loose (by simp) (loose_append_left (by decide) loose)
  exact Piece.made_of_words fun text known c hc => words text (Piece.word_mem_erasedAll known) c hc

theorem reads_pieces (sound : Piece.SoundAll ps) :
    Reads [] (σ.pieces ps) (Piece.erasedAll ps) ↔ Piece.RereadableAll ps := by
  constructor
  · intro read
    have visible := visible_of_reads sound (List.prefix_refl _) read
    exact (reads_visible ps sound visible).mp read
  · intro rereadable
    exact (reads_visible ps sound rereadable.visible).mpr rereadable

/-- Trimming what was written takes nothing away that can be read again. -/
theorem reads_trimEnd_pieces (sound : Piece.SoundAll ps) :
    Reads [] (trimEnd (σ.pieces ps)) (Piece.erasedAll ps) ↔ Piece.RereadableAll ps := by
  have whole : (∀ p ∈ ps, p.Made (isBlank · = false)) → trimEnd (σ.pieces ps) = σ.pieces ps :=
    fun visible => trimEnd_eq_self (Spelling.pieces_last_visible σ sound visible)
  constructor
  · intro read
    have visible := visible_of_reads sound (prefix_trimEnd _) read
    rw [whole visible] at read
    exact (reads_pieces sound).mp read
  · intro rereadable
    rw [whole rereadable.visible]
    exact (reads_pieces sound).mpr rereadable

/-! ## Rules -/

namespace Rule

theorem splitOutside?_pieces (sound : Piece.SoundAll ps) (t : List Char) :
    splitOutside? '=' 0 (σ.pieces ps ++ t) =
      (splitOutside? '=' 0 t).map fun parts => (σ.pieces ps ++ parts.1, parts.2) := by
  have balanced : Balanced (fun _ => True) (· ≠ '=') (σ.pieces ps) :=
    Spelling.balanced_pieces ps sound (fun _ _ => trivial)
      (fun _ _ c _ plain same => plain (same ▸ σ.equals)) (by decide)
      (fun kind => by cases kind <;> decide)
  exact (walk_splitOutside? '=').balanced (by simp) balanced (by decide)
    (fun c _ other stops => other stops.1) t

/-- The value of a slot is read back without the blanks around it. -/
theorem unescape_trim_value (σ : Spelling) (v : String) :
    unescape (trim (' ' :: σ.word v)) = trim v.toList := by
  have kept : ∀ c ∈ σ.words, isBlank c = false := fun c hc => (Spelling.not_blank_of_mem hc).1
  have front : trim (' ' :: σ.word v) = trim (σ.word v) := by
    rw [trim, trimStart_cons_blank (by decide), trim]
  rw [front, Spelling.word, trim_escape kept, unescape_escape (σ.guarded (by decide))]

/-- A value is read back just when it begins with no blank; at its end it never has one. -/
theorem trim_value_iff {r : Rule} (sound : r.Sound) {v : String} (valued : r.value = some v) :
    String.ofList (trim v.toList) = v ↔ ∀ c ∈ v.toList.head?, isBlank c = false := by
  rw [← trim_eq_self_iff (sound.value v valued).2, ← String.toList_inj, String.toList_ofList]

theorem readSlot_spelled_plain (σ : Spelling) {r : Rule} (sound : r.Sound) (bare : r.value = none) :
    readSlot (.ofList (σ.rule r)) = .ok r.erased ↔ r.Rereadable := by
  have split := splitOutside?_pieces (σ := σ) sound.pieces []
  have text : σ.rule r = σ.pieces r.pieces ++ [] := by rw [Spelling.rule, bare, Spelling.value]
  rw [readSlot, String.toList_ofList, text, split]
  simp only [splitOutside?, Option.map_none, List.append_nil]
  rw [read_eq_ok, String.toList_ofList]
  constructor
  · rintro ⟨read, _, _⟩
    exact ⟨(reads_pieces sound.pieces).mp read, by simp [bare]⟩
  · intro rereadable
    exact ⟨(reads_pieces sound.pieces).mpr rereadable.pieces,
      Piece.erasedAll_ne_nil sound.nonempty, bare⟩

theorem readSlot_spelled_value (σ : Spelling) {r : Rule} (sound : r.Sound) {v : String}
    (valued : r.value = some v) :
    readSlot (.ofList (σ.rule r)) = .ok r.erased ↔ r.Rereadable := by
  have split := splitOutside?_pieces (σ := σ) sound.pieces (' ' :: '=' :: ' ' :: σ.word v)
  have mark : splitOutside? '=' 0 (' ' :: '=' :: ' ' :: σ.word v) = some ([' '], ' ' :: σ.word v) :=
    rfl
  have text : σ.rule r = σ.pieces r.pieces ++ ' ' :: '=' :: ' ' :: σ.word v := by
    rw [Spelling.rule, valued, Spelling.value]
  have own := trim_value_iff sound valued
  rw [readSlot, String.toList_ofList, text, split, mark]
  have blank : isBlank ' ' = true := by decide
  simp only [Option.map_some, unescape_trim_value, trimEnd_append_blank blank]
  constructor
  · intro h
    split at h
    · cases h
    · obtain ⟨rule, read, same⟩ := bind_eq_ok.mp h
      have same := Except.ok.inj same
      have pieces : rule.pieces = Piece.erasedAll r.pieces := congrArg Rule.pieces same
      have value : some (String.ofList (trim v.toList)) = r.value := congrArg Rule.value same
      obtain ⟨read, _, _⟩ := read_eq_ok.mp read
      rw [String.toList_ofList, pieces] at read
      refine ⟨(reads_trimEnd_pieces sound.pieces).mp read, fun w valued' => ?_⟩
      obtain rfl : v = w := Option.some.inj (valued.symm.trans valued')
      exact own.mp (Option.some.inj (value.trans valued))
  · intro rereadable
    have kept := own.mpr (rereadable.value v valued)
    have filled : ¬ (trim v.toList).isEmpty = true := by
      intro none
      rw [List.isEmpty_iff.mp none] at kept
      exact (sound.value v valued).1 kept.symm
    have read : read (.ofList (trimEnd (σ.pieces r.pieces))) =
        .ok ⟨Piece.erasedAll r.pieces, none⟩ := by
      refine read_eq_ok.mpr ⟨?_, Piece.erasedAll_ne_nil sound.nonempty, rfl⟩
      rw [String.toList_ofList]
      exact (reads_trimEnd_pieces sound.pieces).mpr rereadable.pieces
    rw [if_neg filled]
    refine bind_eq_ok.mpr ⟨_, read, ?_⟩
    rw [erased, kept, valued]

/-- A rule is read back from a spelling, but for the variation of its groups, just when it is
rereadable. -/
theorem readSlot_spelled (σ : Spelling) {r : Rule} (sound : r.Sound) :
    readSlot (.ofList (σ.rule r)) = .ok r.erased ↔ r.Rereadable := by
  cases valued : r.value with
  | none => exact readSlot_spelled_plain σ sound valued
  | some v => exact readSlot_spelled_value σ sound valued

/-- **Writing a rule and reading it again.** What is read gives itself back when it is written and
read, but for the variation of its groups, just when it is rereadable; and so it does when the text
is prepared as a line of a template in between. -/
theorem readSlot_written {text : String} {r : Rule} (h : readSlot text = .ok r) :
    (readSlot r.written = .ok r.erased ↔ r.Rereadable) ∧
      (readSlot (.ofList (prepare r.written.toList)) = .ok r.erased ↔ r.Rereadable) := by
  have sound := readSlot_sound h
  have template := readSlot_spelled Spelling.template sound
  have line := readSlot_spelled Spelling.line sound
  rw [← Spelling.toList_written sound, String.ofList_toList] at template
  rw [← Spelling.prepare_written sound] at line
  exact ⟨template, line⟩

theorem readSlot_written_greeting : ∃ r,
    readSlot "~[&hi] [you\\;#polite?g/30] = \\=x" = .ok r ∧
      r.written = "~[&hi] [you\\;?g/30] = \\=x" ∧
      readSlot r.written = .ok r.erased ∧
      readSlot (.ofList (prepare r.written.toList)) = .ok r.erased := by
  let r : Rule := ⟨[.reference .alias "hi" ⟨true, none, none, none⟩,
    .group [.word "you;"] none ⟨false, some "polite", some "g", some 30⟩], some "=x"⟩
  have read : readSlot "~[&hi] [you\\;#polite?g/30] = \\=x" = .ok r := by
    with_unfolding_all rfl
  have rereadable : r.Rereadable := by
    have plain : "you;".toList.all fun c => !isBlank c && !Block.isStop c := by decide
    have visible : ∀ c ∈ "you;".toList, isBlank c = false := by simp_all
    have stopless : ∀ c ∈ "you;".toList, Block.isStop c = false := by simp_all
    have unmarked : "you;".toList.head? ≠ some '&' := by decide
    refine ⟨⟨?_, ⟨fun _ => unmarked, ?_, visible, trivial⟩, trivial⟩, ?_⟩
    · intro cased
      cases cased
    · intro p hp
      obtain rfl := List.mem_singleton.mp hp
      exact stopless
    · rintro v ⟨⟩ c ⟨⟩
      decide
  obtain ⟨template, line⟩ := readSlot_written read
  exact ⟨r, read, by decide, template.mpr rereadable, line.mpr rereadable⟩

end Rule
end Phrasebook
