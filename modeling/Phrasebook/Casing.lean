import Phrasebook.Random.Words
import Phrasebook.Text.CaseMap

/-!
# Casing

The ways in which a piece of text can be recased at random. Each of the four is as likely as the
others.
-/
namespace Phrasebook

inductive Casing where
  | asWritten
  | upper
  | lower
  | capitalized
deriving DecidableEq, Repr

namespace Casing

def all : List Casing := [.asWritten, .upper, .lower, .capitalized]

def apply (c : Casing) (s : String) : String :=
  match c with
  | asWritten => s
  | upper => .ofList (Text.capitals s.toList)
  | lower => .ofList (Text.smalls s.toList)
  | capitalized => .ofList (Text.capitalized s.toList)

def draw (w : Words) : Casing × Words :=
  let (c, w) := w.choose all
  (c.getD .asWritten, w)

end Casing
end Phrasebook
