import Phrasebook.Rule
import Phrasebook.Text.Escape

/-!
# Writing rules back

The template text of a piece and of a rule. Words and slot values escape what would read as
structure between words, and the parts of a block what would end them.
-/
namespace Phrasebook

def wordSpecials : List Char := ['[', ']', '\\', ';', '=']

def partSpecials : List Char := ['[', ']', '\\', ';', '#', '?', '/']

def writtenWord (s : String) : String := .ofList (Text.escape wordSpecials s.toList)

def writtenPart (s : String) : String := .ofList (Text.escape partSpecials s.toList)

namespace Modifiers

def writtenCasing (m : Modifiers) : String := if m.casing then "&" else ""

def writtenVariation (m : Modifiers) : String :=
  match m.variation with
  | some v => "#" ++ writtenPart v
  | none => ""

def writtenGroup (m : Modifiers) : String :=
  match m.group with
  | none => ""
  | some g =>
    "?" ++ writtenPart g ++ match m.percent with
      | some p => "/" ++ toString p.toNat
      | none => ""

end Modifiers

def writtenValue : Option String → String
  | some v => " = " ++ writtenWord v
  | none => ""

namespace Piece

mutual

def written : Piece → String
  | word text => writtenWord text
  | group pieces value m =>
    "[" ++ m.writtenCasing ++ (writtenAll pieces ++ writtenValue value) ++ m.writtenGroup ++ "]"
  | reference kind name m =>
    kind.sigil.toString ++ "[" ++ m.writtenCasing ++ writtenPart name ++ m.writtenVariation ++
      m.writtenGroup ++ "]"

/-- Pieces are written with one space between them. -/
def writtenAll : List Piece → String
  | [] => ""
  | [p] => p.written
  | p :: q :: rest => p.written ++ " " ++ writtenAll (q :: rest)

end

end Piece

def Rule.written (r : Rule) : String := Piece.writtenAll r.pieces ++ writtenValue r.value

end Phrasebook
