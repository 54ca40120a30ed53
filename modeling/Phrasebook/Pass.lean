import Phrasebook.Casing
import Phrasebook.Rule

/-!
# Passes

A pass produces one utterance. It takes its choices from random words, and remembers what it has
decided for each named random group: all pieces of a group are in the utterance or none is,
whatever percentages they carry. Pieces of the group without a name are decided one by one.
-/
namespace Phrasebook

structure Pass where
  words : Words
  decisions : List (String × Bool) := []

namespace Pass

/-- A decision of its own, with the given chance. -/
def draw (percent : UInt8) (p : Pass) : Bool × Pass :=
  let (decision, words) := p.words.chance percent
  (decision, { p with words })

def decide (group : String) (percent : UInt8) (p : Pass) : Bool × Pass :=
  if group.isEmpty then p.draw percent
  else
    match p.decisions.lookup group with
    | some decision => (decision, p)
    | none =>
      let (decision, p) := p.draw percent
      (decision, { p with decisions := (group, decision) :: p.decisions })

def includes (m : Modifiers) (p : Pass) : Bool × Pass :=
  match m.group with
  | some group => p.decide group (m.percent.getD Modifiers.defaultPercent)
  | none => (true, p)

def choose {α : Type} (values : List α) (p : Pass) : Option α × Pass :=
  let (value, words) := p.words.choose values
  (value, { p with words })

/-- The casing of a text that is recased at random, or of one that is not. -/
def casing (random : Bool) (p : Pass) : Casing × Pass :=
  if random then
    let (c, words) := Casing.draw p.words
    (c, { p with words })
  else (.asWritten, p)

end Pass
end Phrasebook
