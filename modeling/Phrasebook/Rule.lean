import Phrasebook.Target

/-!
# Rules

A rule is one phrasing: a sequence of words, inline groups and references. The rules of a slot may
also give the value that stands for their text. References and groups carry modifiers: whether the
text is recased at random, which variation is meant, and the random group that decides whether the
piece is there at all.
-/
namespace Phrasebook

structure Modifiers where
  casing : Bool := false
  variation : Option String := none
  group : Option String := none
  percent : Option UInt8 := none
deriving DecidableEq, Repr

namespace Modifiers

/-- The chance of a piece with a random group whose percentage is not written. -/
def defaultPercent : UInt8 := 50

/-- The percentage a piece is included at; one without a random group is always included. -/
def inclusion (m : Modifiers) : Option UInt8 := m.group.map fun _ => m.percent.getD defaultPercent

end Modifiers

/-- The variation among a group's modifiers, and the value beside its pieces, are never used. -/
inductive Piece where
  | word (text : String)
  | group (pieces : List Piece) (value : Option String) (modifiers : Modifiers)
  | reference (kind : Kind) (name : String) (modifiers : Modifiers)
deriving Repr

structure Rule where
  pieces : List Piece
  value : Option String := none
deriving Repr

namespace Piece

def modifiers : Piece → Modifiers
  | word _ => {}
  | group _ _ m => m
  | reference _ _ m => m

/-- Pieces at zero percent are never there, whatever they hold. -/
def isExcluded (p : Piece) : Bool := p.modifiers.inclusion == some 0

mutual

/-- Targets of the references in a piece, in reading order, those inside groups included. -/
def targets : Piece → List Target
  | word _ => []
  | group pieces _ _ => targetsOf pieces
  | reference kind name m => [⟨kind, name, m.variation⟩]

def targetsOf : List Piece → List Target
  | [] => []
  | p :: rest => p.targets ++ targetsOf rest

end

end Piece

def Rule.targets (r : Rule) : List Target := Piece.targetsOf r.pieces

end Phrasebook
