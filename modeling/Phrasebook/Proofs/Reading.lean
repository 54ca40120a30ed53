import Phrasebook.Proofs.Balanced
import Phrasebook.Proofs.Outcome
import Phrasebook.Rule.Reader

/-!
# What a text is read as

The pieces of a rule's text depend on the text alone, and not on what the errors name. This makes
reading a relation, with one rule for everything that can stand at the front of the text.

* `readPieces_reference`, `readPieces_group`, `readPieces_blank`, `readPieces_char`: what the reader
  leaves to the rest of the text;
* `Reads`: the relation, and `readPieces_eq_ok`: it is what the reader computes;
* `reads_escaped`, `reads_blank`, `reads_char`, `reads_group`, `reads_reference`: what the front of
  a text says about its pieces;
* `Block.ofInside_eq_ok`: a block is its parts, one after the other.
-/

namespace Phrasebook

/-! ## Blocks -/

namespace Block

open Text

theorem ofInside_eq_ok {kind : Option Kind} {inner : List Char} {b : Block} :
    ofInside kind inner = .ok b ↔
      ∃ name s variation s' group percent,
        readName kind.isNone (readCasing inner).2 = .ok (name, s) ∧
        readVariation kind.isNone s = .ok (variation, s') ∧
        readInclusion kind.isNone s' = .ok (group, percent, []) ∧
        b = ⟨kind, .ofList name, ⟨(readCasing inner).1, variation, group, percent⟩⟩ := by
  constructor
  · intro h
    obtain ⟨⟨name, s⟩, named, h⟩ := bind_eq_ok.mp h
    obtain ⟨⟨variation, s'⟩, varied, h⟩ := bind_eq_ok.mp h
    obtain ⟨⟨group, percent, s''⟩, included, h⟩ := bind_eq_ok.mp h
    dsimp only at h included varied
    split at h
    · next none =>
      obtain rfl := List.isEmpty_iff.mp none
      exact ⟨name, s, variation, s', group, percent, named, varied, included,
        (Except.ok.inj h).symm⟩
    · cases h
  · rintro ⟨name, s, variation, s', group, percent, named, varied, included, rfl⟩
    refine bind_eq_ok.mpr ⟨_, named, bind_eq_ok.mpr ⟨_, varied, bind_eq_ok.mpr ⟨_, included, ?_⟩⟩⟩
    rfl

theorem kind_of_ofInside {kind : Option Kind} {inner : List Char} {b : Block}
    (h : ofInside kind inner = .ok b) : b.kind = kind := by
  obtain ⟨_, _, _, _, _, _, _, _, _, rfl⟩ := ofInside_eq_ok.mp h
  rfl

variable {e p : Char → Prop} {inner : List Char} {b : Block}

theorem read_group (balanced : Balanced e p inner) :
    read ('[' :: (inner ++ [']'])) = .ok b ↔ ofInside none inner = .ok b := by
  simp only [read, kind?, bind, Except.bind, Option.isNone_none, if_true,
    inside?_balanced balanced]
  cases ofInside none inner <;> simp

theorem read_reference (kind : Kind) (balanced : Balanced e p inner) :
    read (kind.sigil :: '[' :: (inner ++ [']'])) = .ok b ↔ ofInside (some kind) inner = .ok b := by
  have known : kind? (kind.sigil :: '[' :: (inner ++ [']'])) = .ok (some kind) := by
    cases kind <;> rfl
  simp only [read, known, bind, Except.bind, Option.isNone_some, Bool.false_eq_true, if_false,
    List.tail_cons, inside?_balanced balanced]
  cases ofInside (some kind) inner <;> simp

end Block

/-! ## Pieces -/

/-- With a word begun, the rest of a text is read as these pieces. -/
inductive Reads : List Char → List Char → List Piece → Prop
  | nil {word} : Reads word [] (flush word [])
  | escaped {word c rest pieces} (after : Reads (c :: word) rest pieces) :
      Reads word ('\\' :: c :: rest) pieces
  | reference {word s marks inside inner after b kind pieces}
      (opens : opening? s = some (marks, inside))
      (closes : Text.throughClosing? 0 inside = some (inner, after))
      (block : Block.read (marks ++ inner) = .ok b) (known : b.kind = some kind)
      (later : Reads [] after pieces) :
      Reads word s (flush word (.reference kind b.name b.modifiers :: pieces))
  | group {word s marks inside inner after b body pieces}
      (opens : opening? s = some (marks, inside))
      (closes : Text.throughClosing? 0 inside = some (inner, after))
      (block : Block.read (marks ++ inner) = .ok b) (known : b.kind = none)
      (named : Reads [] b.name.toList body) (some : body ≠ [])
      (later : Reads [] after pieces) :
      Reads word s (flush word (.group body none b.modifiers :: pieces))
  | blank {word c rest pieces} (closed : opening? (c :: rest) = none)
      (blank : Text.isBlank c = true) (after : Reads [] rest pieces) :
      Reads word (c :: rest) (flush word pieces)
  | char {word c rest pieces} (alone : c = '\\' → rest = []) (closed : opening? (c :: rest) = none)
      (visible : Text.isBlank c = false) (inside : c ≠ ']')
      (after : Reads (c :: word) rest pieces) : Reads word (c :: rest) pieces

theorem opening?_front {s marks inside : List Char} (h : opening? s = some (marks, inside)) :
    ∃ c rest, s = c :: rest ∧ c ≠ '\\' := by
  unfold opening? at h
  split at h
  · exact ⟨'[', _, rfl, by decide⟩
  · next c rest _ =>
    refine ⟨c, _, rfl, ?_⟩
    rintro rfl
    cases h
  · cases h

section
variable {text : String} {word s marks inside inner after rest : List Char} {c : Char} {b : Block}

theorem opening?_blank (blank : Text.isBlank c = true) : opening? (c :: rest) = none := by
  have other : ∀ d, Text.isBlank d = false → c ≠ d := fun d hd same => by simp [same, hd] at blank
  unfold opening?
  split
  · next h => cases h; exact absurd blank (by decide)
  · next h =>
    cases h
    simp [Kind.ofSigil?, other '~' (by decide), other '@' (by decide), other '%' (by decide)]
  · rfl

theorem readPieces_reference {kind : Kind} (opens : opening? s = some (marks, inside))
    (closes : Text.throughClosing? 0 inside = some (inner, after))
    (block : Block.read (marks ++ inner) = .ok b) (known : b.kind = some kind) :
    readPieces text word s = (readPieces text [] after).map fun later =>
      flush word (.reference kind b.name b.modifiers :: later) := by
  obtain ⟨c, rest, rfl, unescaped⟩ := opening?_front opens
  rw [readPieces.eq_3 _ _ _ _ fun _ _ same _ => unescaped same]
  split
  · split
    · simp_all
    · split
      · simp_all
      · split <;> simp_all
  · simp_all

theorem readPieces_group {body : List Piece} (opens : opening? s = some (marks, inside))
    (closes : Text.throughClosing? 0 inside = some (inner, after))
    (block : Block.read (marks ++ inner) = .ok b) (known : b.kind = none)
    (named : readPieces b.name [] b.name.toList = .ok body) (some : body ≠ []) :
    readPieces text word s = (readPieces text [] after).map fun later =>
      flush word (.group body none b.modifiers :: later) := by
  obtain ⟨c, rest, rfl, unescaped⟩ := opening?_front opens
  rw [readPieces.eq_3 _ _ _ _ fun _ _ same _ => unescaped same]
  split
  · split
    · simp_all
    · split
      · simp_all
      · split
        · simp_all
        · split <;> simp_all
  · simp_all

theorem readPieces_blank (blank : Text.isBlank c = true) :
    readPieces text word (c :: rest) = (readPieces text [] rest).map (flush word) := by
  have closed : opening? (c :: rest) = none := opening?_blank blank
  have unescaped : c ≠ '\\' := by
    rintro rfl
    exact absurd blank (by decide)
  rw [readPieces.eq_3 _ _ _ _ fun _ _ same _ => unescaped same]
  split <;> simp_all

theorem readPieces_char (alone : c = '\\' → rest = []) (closed : opening? (c :: rest) = none)
    (visible : Text.isBlank c = false) (inside : c ≠ ']') :
    readPieces text word (c :: rest) = readPieces text (c :: word) rest := by
  rw [readPieces.eq_3 _ _ _ _ fun d after same more => by simp [alone same] at more]
  split <;> simp_all

end

theorem reads_of_readPieces {text : String} {word s : List Char} {pieces : List Piece}
    (h : readPieces text word s = .ok pieces) : Reads word s pieces := by
  fun_induction readPieces text word s generalizing pieces with
  | case1 =>
    obtain rfl := Except.ok.inj h
    exact .nil
  | case2 _ _ _ _ ih => exact .escaped (ih h)
  | case3 | case4 | case6 | case7 | case10 => cases h
  | case5 _ _ _ _ _ _ _ opens _ _ closes _ block _ known ih =>
    obtain ⟨later, read, rfl⟩ := map_eq_ok.mp h
    exact .reference opens closes block known (ih read)
  | case8 _ _ _ _ _ _ _ opens _ _ closes _ block known _ some named ih ih' =>
    obtain ⟨later, read, rfl⟩ := map_eq_ok.mp h
    exact .group opens closes block known (ih named) some (ih' read)
  | case9 _ _ _ _ _ closed blank ih =>
    obtain ⟨later, read, rfl⟩ := map_eq_ok.mp h
    exact .blank closed blank (ih read)
  | case11 _ _ c rest alone closed visible inside ih =>
    exact .char (Text.last_of_alone alone) closed (by simpa using visible) inside (ih h)

theorem readPieces_of_reads {word s : List Char} {pieces : List Piece} (h : Reads word s pieces)
    (text : String) : readPieces text word s = .ok pieces := by
  induction h generalizing text with
  | nil => rw [readPieces]
  | escaped _ ih => rw [readPieces, ih]
  | reference opens closes block known _ ih =>
    rw [readPieces_reference opens closes block known, ih]
    rfl
  | group opens closes block known _ some _ ih ih' =>
    rw [readPieces_group opens closes block known (ih _) some, ih']
    rfl
  | blank _ blank _ ih =>
    rw [readPieces_blank blank, ih]
    rfl
  | char alone closed visible inside _ ih => rw [readPieces_char alone closed visible inside, ih]

theorem readPieces_eq_ok {text : String} {word s : List Char} {pieces : List Piece} :
    readPieces text word s = .ok pieces ↔ Reads word s pieces :=
  ⟨reads_of_readPieces, fun h => readPieces_of_reads h text⟩

/-! ## The front of a text -/

section
variable {word rest inner after : List Char} {c : Char} {pieces : List Piece} {e p : Char → Prop}

theorem opening?_eq_none (opens : c ≠ '[') (next : rest.head? ≠ some '[') :
    opening? (c :: rest) = none := by
  unfold opening?
  split
  · next h => cases h; exact absurd rfl opens
  · next h => cases h; exact absurd rfl next
  · rfl

theorem opening?_sigil (kind : Kind) : opening? (kind.sigil :: '[' :: rest) =
    some ([kind.sigil, '['], rest) := by
  cases kind <;> rfl

theorem reads_nil : Reads word [] pieces ↔ pieces = flush word [] := by
  rw [← @readPieces_eq_ok "", readPieces, Except.ok.injEq, eq_comm]

theorem reads_escaped : Reads word ('\\' :: c :: rest) pieces ↔ Reads (c :: word) rest pieces := by
  rw [← @readPieces_eq_ok "", readPieces, readPieces_eq_ok]

theorem reads_blank (blank : Text.isBlank c = true) :
    Reads word (c :: rest) pieces ↔ ∃ later, Reads [] rest later ∧ pieces = flush word later := by
  rw [← @readPieces_eq_ok "", readPieces_blank blank, map_eq_ok]
  simp only [readPieces_eq_ok, eq_comm (b := pieces)]

theorem reads_char (unescaped : c ≠ '\\') (opens : c ≠ '[') (closes : c ≠ ']')
    (visible : Text.isBlank c = false) (next : rest.head? ≠ some '[') :
    Reads word (c :: rest) pieces ↔ Reads (c :: word) rest pieces := by
  have alone : c = '\\' → rest = [] := fun same => absurd same unescaped
  have closed : opening? (c :: rest) = none := opening?_eq_none opens next
  rw [← @readPieces_eq_ok "", readPieces_char alone closed visible closes, readPieces_eq_ok]

theorem throughClosing?_balanced (balanced : Text.Balanced e p inner) (after : List Char) :
    Text.throughClosing? 0 (inner ++ ']' :: after) = some (inner ++ [']'], after) := by
  rw [Text.walk_throughClosing?.balanced (by simp) balanced (by simp)
    fun c closes _ => by simp [closes]]
  simp [Text.throughClosing?]

theorem reads_group (balanced : Text.Balanced e p inner) :
    Reads word ('[' :: (inner ++ ']' :: after)) pieces ↔
      ∃ b body later, Block.ofInside none inner = .ok b ∧ Reads [] b.name.toList body ∧ body ≠ [] ∧
        Reads [] after later ∧ pieces = flush word (.group body none b.modifiers :: later) := by
  have closes := throughClosing?_balanced balanced after
  have text : ['['] ++ (inner ++ [']']) = '[' :: (inner ++ [']']) := rfl
  constructor
  · intro h
    cases h with
    | reference opens closes' block known later =>
      cases opens
      rw [closes] at closes'
      cases closes'
      rw [text, Block.read_group balanced] at block
      rw [Block.kind_of_ofInside block] at known
      cases known
    | group opens closes' block known named some later =>
      cases opens
      rw [closes] at closes'
      cases closes'
      rw [text, Block.read_group balanced] at block
      exact ⟨_, _, _, block, named, some, later, rfl⟩
    | blank closed => cases closed
    | char _ closed => cases closed
  · rintro ⟨b, body, later, block, named, some, read, rfl⟩
    have known := Block.kind_of_ofInside block
    rw [← Block.read_group balanced, ← text] at block
    exact .group rfl closes block known named some read

theorem reads_reference (kind : Kind) (balanced : Text.Balanced e p inner) :
    Reads word (kind.sigil :: '[' :: (inner ++ ']' :: after)) pieces ↔
      ∃ b later, Block.ofInside (some kind) inner = .ok b ∧ Reads [] after later ∧
        pieces = flush word (.reference kind b.name b.modifiers :: later) := by
  have closes := throughClosing?_balanced balanced after
  have text : [kind.sigil, '['] ++ (inner ++ [']']) = kind.sigil :: '[' :: (inner ++ [']']) := rfl
  have opening : opening? (kind.sigil :: '[' :: (inner ++ ']' :: after)) =
      some ([kind.sigil, '['], inner ++ ']' :: after) := opening?_sigil kind
  constructor
  · intro h
    generalize front : kind.sigil :: '[' :: (inner ++ ']' :: after) = s at h
    cases h with
    | nil => cases front
    | escaped => cases kind <;> cases front
    | reference opens closes' block known later =>
      rw [← front, opening] at opens
      cases opens
      rw [closes] at closes'
      cases closes'
      rw [text, Block.read_reference kind balanced] at block
      rw [Block.kind_of_ofInside block] at known
      cases known
      exact ⟨_, _, block, later, rfl⟩
    | group opens closes' block known named some later =>
      rw [← front, opening] at opens
      cases opens
      rw [closes] at closes'
      cases closes'
      rw [text, Block.read_reference kind balanced] at block
      rw [Block.kind_of_ofInside block] at known
      cases known
    | blank closed => rw [← front, opening] at closed; cases closed
    | char _ closed => rw [← front, opening] at closed; cases closed
  · rintro ⟨b, later, block, read, rfl⟩
    have known := Block.kind_of_ofInside block
    rw [← Block.read_reference kind balanced, ← text] at block
    exact .reference opening closes block known read

end
end Phrasebook
