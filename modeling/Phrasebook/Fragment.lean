import Phrasebook.Casing

/-!
# Fragments

What a piece of a rule expands to: its text, and the slots that are filled in it. Fragments are
joined by single spaces, and an empty one leaves no trace. A finished fragment is an example of an
intent.
-/
namespace Phrasebook

/-- A filled slot: its text as it stands in the utterance, and the value it stands for. -/
structure Entity where
  slot : String
  text : String
  value : String
deriving DecidableEq, Repr

structure Fragment where
  text : String := ""
  entities : List Entity := []
deriving DecidableEq, Repr

structure Example where
  intent : String
  text : String
  entities : List Entity
deriving DecidableEq, Repr

def joinTexts (a b : String) : String :=
  if a.isEmpty then b else if b.isEmpty then a else a ++ " " ++ b

namespace Fragment

def word (text : String) : Fragment := { text }

def append (f g : Fragment) : Fragment := ⟨joinTexts f.text g.text, f.entities ++ g.entities⟩

/-- The entities are recased like the text they stand in. A capitalized text changes at its start,
so of its entities only those that it starts with are changed. -/
def recase (c : Casing) (f : Fragment) : Fragment where
  text := c.apply f.text
  entities := f.entities.map fun e =>
    if c ≠ .capitalized || e.text.toList.isPrefixOf f.text.toList then
      { e with text := c.apply e.text }
    else e

/-- Marks the whole of a non-empty fragment as the slot's. Where no value is declared it is the text
before recasing. -/
def tagged (slot : String) (value : Option String) (written : String) (f : Fragment) : Fragment :=
  if f.text.isEmpty then f
  else { f with entities := f.entities ++ [⟨slot, f.text, value.getD written⟩] }

def toExample (f : Fragment) (intent : String) : Example := ⟨intent, f.text, f.entities⟩

end Fragment
end Phrasebook
