import Phrasebook.Text.CaseTable

/-!
# Letter case

Capital and small forms of text, one character at a time: a character may become several. Only the
capital sigma looks around itself. It becomes a final sigma where it ends a word, that is where the
nearest character before it that is no mark has letter case and the nearest one after it has none.
-/
namespace Phrasebook.Text

def formOf (shifts : List Shift) (sequences : List (Nat × List Nat)) (c : Char) :
    List Char :=
  match sequences.lookup c.toNat with
  | some codes => codes.map Char.ofNat
  | none =>
    match shifts.find? (·.holds c.toNat) with
    | some s => [Char.ofNat (c.toNat + s.distance).toNat]
    | none => [c]

def capital (c : Char) : List Char := formOf capitalShifts capitalSequences c

def small (c : Char) : List Char := formOf smallShifts smallSequences c

def inRanges (ranges : List (Nat × Nat)) (c : Char) : Bool :=
  ranges.any fun r => r.1 ≤ c.toNat && c.toNat ≤ r.2

def isCased (c : Char) : Bool := inRanges casedRanges c

def isIgnorable (c : Char) : Bool := inRanges ignorableRanges c

def meetsCased (s : List Char) : Bool :=
  match s.dropWhile isIgnorable with
  | c :: _ => isCased c
  | [] => false

def capitals (s : List Char) : List Char := s.flatMap capital

/-- Small forms of a text, with the characters before it nearest first. -/
def smallsAfter (before : List Char) : List Char → List Char
  | [] => []
  | c :: rest =>
    (if c = '\u03A3' then
      [if meetsCased before && !meetsCased rest then '\u03C2' else '\u03C3']
    else small c) ++ smallsAfter (c :: before) rest

def smalls (s : List Char) : List Char := smallsAfter [] s

/-- Only the first character is changed. -/
def capitalized : List Char → List Char
  | [] => []
  | c :: rest => capital c ++ rest

end Phrasebook.Text
