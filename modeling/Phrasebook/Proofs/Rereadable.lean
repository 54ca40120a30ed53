import Phrasebook.Proofs.Loose
import Phrasebook.Proofs.Spelling

/-!
# What can be read again

The printer escapes most of what would be read as something else, but not all of it: blanks in
words, the stops in the words of a group, and an ampersand at the front.

* `Rule.erased`: a rule without the variation of its groups, which is not written;
* `Rule.Rereadable`: nothing in the rule is left unescaped that should not be, at any depth;
* `Block.readVariation_spelled`, `Block.readInclusion_spelled`: the modifiers of a block are read
  back;
* `Block.ofInside_reference`: a reference is read back just when it is rereadable.
-/

namespace Phrasebook

open Text

namespace Piece

mutual

/-- The piece as it can be written: the variation of a group cannot. -/
def erased : Piece → Piece
  | word text => word text
  | group pieces value m => group (erasedAll pieces) value { m with variation := none }
  | reference kind name m => reference kind name m

def erasedAll : List Piece → List Piece
  | [] => []
  | p :: rest => p.erased :: erasedAll rest

end

/-- A word of such characters. Other pieces are not read as words. -/
def Made (good : Char → Prop) : Piece → Prop
  | word text => ∀ c ∈ text.toList, good c
  | _ => True

/-- The list begins with a word that begins with an ampersand. -/
def Marked : List Piece → Prop
  | word text :: _ => text.toList.head? = some '&'
  | _ => False

mutual

/-- Nothing in the piece is read as something else once it is written: no word holds a blank, none
that stands directly in a group a stop, and no ampersand stands where it asks for recasing. -/
def Rereadable : Piece → Prop
  | word text => (word text).Made (isBlank · = false)
  | group pieces _ m =>
    (m.casing = false → ¬ Marked pieces) ∧ (∀ p ∈ pieces, p.Made (Block.isStop · = false)) ∧
      RereadableAll pieces
  | reference _ name m => m.casing = false → name.toList.head? ≠ some '&'

def RereadableAll : List Piece → Prop
  | [] => True
  | p :: rest => p.Rereadable ∧ RereadableAll rest

end

end Piece

namespace Rule

def erased (r : Rule) : Rule := { r with pieces := Piece.erasedAll r.pieces }

structure Rereadable (r : Rule) : Prop where
  pieces : Piece.RereadableAll r.pieces
  value : ∀ v, r.value = some v → ∀ c ∈ v.toList.head?, isBlank c = false

end Rule

/-! ## Blocks -/

namespace Block

variable {σ : Spelling} {m : Modifiers} {nests : Bool} {t : List Char}

theorem ends_group : Ends (σ.group m) := by
  unfold Spelling.group
  cases m.group with
  | none => nofun
  | some g => rintro c ⟨⟩; rfl

theorem ends_variation : Ends (σ.variation m ++ σ.group m) := by
  unfold Spelling.variation
  cases m.variation with
  | none => exact ends_group
  | some v => rintro c ⟨⟩; rfl

theorem group_head (σ : Spelling) (m : Modifiers) : (σ.group m).head? ≠ some '#' := by
  unfold Spelling.group
  cases m.group with
  | none => nofun
  | some g => nofun

theorem readVariation_none (h : t.head? ≠ some '#') :
    readVariation nests t = .ok (none, t) := by
  unfold readVariation
  split
  · exact absurd rfl h
  · rfl

theorem readVariation_spelled (sound : m.Sound) :
    readVariation nests (σ.variation m ++ σ.group m) = .ok (m.variation, σ.group m) := by
  unfold Spelling.variation
  cases h : m.variation with
  | none => exact readVariation_none (group_head σ m)
  | some v =>
    have whole : part nests 0 (σ.part v ++ σ.group m) = .ok (σ.part v, σ.group m) :=
      part_escape σ.fenced σ.stops ends_group
    have name : unescape (σ.part v) = v.toList :=
      unescape_escape (σ.fenced (by decide)) _
    have filled : v.toList.isEmpty = false := by
      have some : v ≠ "" := fun none => sound.variation (none ▸ h)
      simpa using some
    simp [readVariation, whole, name, filled, group_head σ m, bind, Except.bind]

theorem part_plain (plain : ∀ c ∈ t, c ∉ partSpecials) : part nests 0 t = .ok (t, []) := by
  have whole : part nests 0 (escape partSpecials t ++ []) = .ok (escape partSpecials t, []) :=
    part_escape Spelling.template.fenced Spelling.template.stops nofun
  rwa [List.append_nil, escape_eq_self plain] at whole

theorem readInclusion_spelled (sound : m.Sound) :
    readInclusion nests (σ.group m) = .ok (m.group, m.percent, []) := by
  unfold Spelling.group
  cases named : m.group with
  | none =>
    have free : m.percent = none := by
      cases h : m.percent with
      | none => rfl
      | some p => exact absurd named (sound.percent p h).1
    rw [free]
    rfl
  | some g =>
    have name : unescape (σ.part g) = g.toList := unescape_escape (σ.fenced (by decide)) _
    unfold Spelling.percent
    cases h : m.percent with
    | none =>
      have whole : part nests 0 (σ.part g ++ []) = .ok (σ.part g, []) :=
        part_escape σ.fenced σ.stops nofun
      simp only [readInclusion, whole, name, bind, Except.bind, String.ofList_toList]
    | some p =>
      have few := (sound.percent p h).2
      have whole : part nests 0 (σ.part g ++ '/' :: (toString p.toNat).toList) =
          .ok (σ.part g, '/' :: (toString p.toNat).toList) :=
        part_escape σ.fenced σ.stops (by rintro c ⟨⟩; rfl)
      have digits : part nests 0 (toString p.toNat).toList = .ok ((toString p.toNat).toList, []) :=
        part_plain fun c hc => (Spelling.plain_of_isDigit (Spelling.isDigit_of_percent few hc)).2
      have number := (Spelling.written_percent p.toNat (UInt8.le_iff_toNat_le.mp few)).2
      simp only [readInclusion, whole, name, digits, number, bind, Except.bind,
        String.ofList_toList, UInt8.ofNat_toNat]

theorem readName_spelled {name : String} (named : allBlank name.toList = false) (ends : Ends t) :
    readName false (σ.part name ++ t) = .ok (name.toList, t) := by
  have whole : part false 0 (σ.part name ++ t) = .ok (σ.part name, t) :=
    part_escape σ.fenced σ.stops ends
  have text : unescape (σ.part name) = name.toList := unescape_escape (σ.fenced (by decide)) _
  exact readName_eq_ok.mpr ⟨_, whole, text.symm, named⟩

theorem readCasing_spelled (h : m.casing = false → t.head? ≠ some '&') :
    readCasing (Spelling.casing m ++ t) = (m.casing, t) := by
  unfold Spelling.casing
  cases marked : m.casing with
  | true => rfl
  | false =>
    simp only [Bool.false_eq_true, if_false, List.nil_append]
    unfold readCasing
    split
    · exact absurd rfl (h marked)
    · rfl

/-- Where no recasing is asked for and none is read, the text does not begin with an ampersand. -/
theorem head_of_readCasing (h : (readCasing (Spelling.casing m ++ t)).1 = m.casing) :
    m.casing = false → t.head? ≠ some '&' := by
  intro unmarked front
  obtain ⟨rest, rfl⟩ : ∃ rest, t = '&' :: rest := by
    cases t with
    | nil => cases front
    | cons c rest => exact ⟨rest, by simpa using front⟩
  simp [Spelling.casing, unmarked, readCasing] at h

theorem head_part (σ : Spelling) (name : String) (filled : name.toList ≠ []) (t : List Char) :
    (σ.part name ++ t).head? = some '&' ↔ name.toList.head? = some '&' := by
  have plain : '&' ∉ σ.parts := fun h => absurd (σ.few' h) (by decide)
  unfold Spelling.part
  cases text : name.toList with
  | nil => exact absurd text filled
  | cons c rest =>
    by_cases special : c ∈ σ.parts
    · have other : c ≠ '&' := fun same => plain (same ▸ special)
      rw [escape_cons_of_mem special]
      simp [other]
    · rw [escape_cons_of_not_mem special]
      rfl

/-- A reference is read back unless its name begins as if it asked for recasing. -/
theorem ofInside_reference (kind : Kind) {name : String} (named : allBlank name.toList = false)
    (sound : m.Sound) :
    ofInside (some kind) (Spelling.casing m ++ (σ.part name ++ (σ.variation m ++ σ.group m))) =
        .ok ⟨some kind, name, m⟩ ↔ (m.casing = false → name.toList.head? ≠ some '&') := by
  have filled : name.toList ≠ [] := by
    intro none
    rw [none] at named
    cases named
  have front := head_part σ name filled (σ.variation m ++ σ.group m)
  constructor
  · intro h
    obtain ⟨_, _, _, _, _, _, _, _, _, same⟩ := ofInside_eq_ok.mp h
    have cased := congrArg (fun b => b.modifiers.casing) same
    exact fun unmarked => mt front.mpr (head_of_readCasing cased.symm unmarked)
  · intro h
    have casing := readCasing_spelled (t := σ.part name ++ (σ.variation m ++ σ.group m))
      fun unmarked => mt front.mp (h unmarked)
    rw [ofInside_eq_ok, casing]
    refine ⟨_, _, _, _, _, _, readName_spelled named ends_variation, readVariation_spelled sound,
      readInclusion_spelled sound, ?_⟩
    rw [String.ofList_toList]

end Block
end Phrasebook
