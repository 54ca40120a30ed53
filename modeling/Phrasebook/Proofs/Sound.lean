import Phrasebook.Proofs.Reading

/-!
# Sound rules

Not everything that can be built is read from a text: a rule that was read has pieces, at every
depth, and its names are there where they can be left out only as a whole.

* `Piece.Sound`, `Rule.Sound`: what holds of everything that was read;
* `Reads.sound`, `readSlot_sound`: and it does.
-/

namespace Phrasebook

structure Modifiers.Sound (m : Modifiers) : Prop where
  variation : m.variation ≠ some ""
  percent : ∀ p, m.percent = some p → m.group ≠ none ∧ p ≤ 100

namespace Piece

mutual

def Sound : Piece → Prop
  | word text => text ≠ ""
  | group pieces value m => pieces ≠ [] ∧ SoundAll pieces ∧ value = none ∧ m.Sound
  | reference _ name m => Text.allBlank name.toList = false ∧ m.Sound

def SoundAll : List Piece → Prop
  | [] => True
  | p :: rest => p.Sound ∧ SoundAll rest

end

end Piece

/-- A value ends where its text did, and so in no blank. -/
structure Rule.Sound (r : Rule) : Prop where
  nonempty : r.pieces ≠ []
  pieces : Piece.SoundAll r.pieces
  value : ∀ v, r.value = some v → v ≠ "" ∧ ∀ c ∈ v.toList.getLast?, Text.isBlank c = false

namespace Block

theorem readName_eq_ok {nests : Bool} {s name after : List Char} :
    readName nests s = .ok (name, after) ↔ ∃ raw, part nests 0 s = .ok (raw, after) ∧
      name = (if nests then Text.trim raw else Text.unescape raw) ∧
      Text.allBlank name = false := by
  constructor
  · intro h
    obtain ⟨⟨raw, rest⟩, read, h⟩ := bind_eq_ok.mp h
    dsimp only at h
    cases blank : Text.allBlank (if nests then Text.trim raw else Text.unescape raw) with
    | true =>
      rw [if_pos blank] at h
      cases h
    | false =>
      rw [if_neg (by simp [blank])] at h
      cases h
      exact ⟨raw, read, rfl, blank⟩
  · rintro ⟨raw, read, rfl, some⟩
    refine bind_eq_ok.mpr ⟨_, read, ?_⟩
    dsimp only
    rw [if_neg (by simp [some])]

theorem readVariation_sound {nests : Bool} {s after : List Char} {variation : Option String}
    (h : readVariation nests s = .ok (variation, after)) : variation ≠ some "" := by
  unfold readVariation at h
  split at h
  · obtain ⟨⟨raw, rest⟩, _, h⟩ := bind_eq_ok.mp h
    dsimp only at h
    split at h
    · cases h
    · next some =>
      split at h
      · cases h
      · cases h
        intro none
        exact some (List.isEmpty_iff.mpr (String.ofList_eq_empty_iff.mp (Option.some.inj none)))
  · cases h
    nofun

theorem percent?_le {s : List Char} {p : UInt8} (h : percent? s = some p) : p ≤ 100 := by
  simp only [percent?, bind, Option.bind] at h
  split at h
  · cases h
  · dsimp only at h
    split at h
    · next n _ few =>
      obtain rfl := Option.some.inj h
      rw [UInt8.le_iff_toNat_le, UInt8.toNat_ofNat']
      exact Nat.le_trans (Nat.mod_le _ _) few
    · cases h

theorem readInclusion_sound {nests : Bool} {s after : List Char} {group : Option String}
    {percent : Option UInt8} (h : readInclusion nests s = .ok (group, percent, after)) :
    ∀ p, percent = some p → group ≠ none ∧ p ≤ 100 := by
  unfold readInclusion at h
  split at h
  · cases h
  · obtain ⟨⟨raw, rest⟩, _, h⟩ := bind_eq_ok.mp h
    dsimp only at h
    split at h
    · cases h
    · cases h
    · obtain ⟨⟨digits, rest⟩, _, h⟩ := bind_eq_ok.mp h
      dsimp only at h
      split at h
      · next number =>
        cases h
        rintro p ⟨⟩
        exact ⟨Option.some_ne_none _, percent?_le number⟩
      · cases h
    · cases h
      rintro p ⟨⟩
  · cases h
    rintro p ⟨⟩

theorem ofInside_sound {kind : Option Kind} {inner : List Char} {b : Block}
    (h : ofInside kind inner = .ok b) :
    b.modifiers.Sound ∧ Text.allBlank b.name.toList = false := by
  obtain ⟨name, _, _, _, _, _, named, varied, included, rfl⟩ := ofInside_eq_ok.mp h
  obtain ⟨_, _, _, some⟩ := readName_eq_ok.mp named
  refine ⟨⟨readVariation_sound varied, readInclusion_sound included⟩, ?_⟩
  rwa [String.toList_ofList]

theorem read_sound {text : List Char} {b : Block} (h : read text = .ok b) :
    b.modifiers.Sound ∧ Text.allBlank b.name.toList = false := by
  obtain ⟨kind, _, h⟩ := bind_eq_ok.mp h
  dsimp only at h
  split at h
  · split at h
    · cases h
    · split at h
      · cases h
      · next inside =>
        cases h
        exact ofInside_sound inside
  · cases h

end Block

theorem soundAll_flush {pieces : List Piece} (word : List Char) (h : Piece.SoundAll pieces) :
    Piece.SoundAll (flush word pieces) := by
  unfold flush
  split
  · exact h
  · next some =>
    refine ⟨fun none => ?_, h⟩
    have same := List.reverse_eq_nil_iff.mp (String.ofList_eq_empty_iff.mp none)
    exact some (List.isEmpty_iff.mpr same)

theorem Reads.sound {word s : List Char} {pieces : List Piece} (h : Reads word s pieces) :
    Piece.SoundAll pieces := by
  induction h with
  | nil => exact soundAll_flush _ trivial
  | escaped _ ih => exact ih
  | reference _ _ block _ _ ih =>
    obtain ⟨modifiers, named⟩ := Block.read_sound block
    exact soundAll_flush _ ⟨⟨named, modifiers⟩, ih⟩
  | group _ _ block _ _ some _ inner ih =>
    exact soundAll_flush _ ⟨⟨some, inner, rfl, (Block.read_sound block).1⟩, ih⟩
  | blank _ _ _ ih => exact soundAll_flush _ ih
  | char _ _ _ _ _ ih => exact ih

namespace Rule

theorem read_eq_ok {text : String} {r : Rule} :
    read text = .ok r ↔ Reads [] text.toList r.pieces ∧ r.pieces ≠ [] ∧ r.value = none := by
  constructor
  · intro h
    obtain ⟨pieces, read, h⟩ := bind_eq_ok.mp h
    split at h
    · cases h
    · next some =>
      cases h
      exact ⟨readPieces_eq_ok.mp read, fun none => some (List.isEmpty_iff.mpr none), rfl⟩
  · rintro ⟨read, some, none⟩
    refine bind_eq_ok.mpr ⟨_, readPieces_eq_ok.mpr read, ?_⟩
    rw [if_neg (by simpa using some), ← none]

theorem readSlot_sound {text : String} {r : Rule} (h : readSlot text = .ok r) : r.Sound := by
  unfold readSlot at h
  split at h
  · obtain ⟨read, some, none⟩ := read_eq_ok.mp h
    exact ⟨some, read.sound, by simp [none]⟩
  · next phrase value _ =>
    dsimp only at h
    split at h
    · cases h
    · next filled =>
      obtain ⟨rule, read, h⟩ := bind_eq_ok.mp h
      cases h
      obtain ⟨read, some, _⟩ := read_eq_ok.mp read
      refine ⟨some, read.sound, ?_⟩
      rintro v ⟨⟩
      constructor
      · intro none
        exact filled (List.isEmpty_iff.mpr (String.ofList_eq_empty_iff.mp none))
      · rw [String.toList_ofList, Text.getLast?_unescape]
        exact Text.getLast?_trimEnd _

end Rule
end Phrasebook
