import Phrasebook.Error
import Phrasebook.Text.Blank
import Phrasebook.Text.Numeral

/-!
# Counts

How many utterances are asked for: a positive whole number. An intent's declaration writes it in
parentheses directly after the closing bracket.
-/
namespace Phrasebook.Count

def read (text : String) : Outcome UInt64 :=
  match Text.word64? (Text.trim text.toList) with
  | some n => if 0 < n then .ok n else .error (.invalidCount (.notPositive text))
  | none => .error (.invalidCount (.notPositive text))

/-- The texts between a bracket that is followed by a parenthesis and the next closing one, in
order; `inside` holds the characters of an open one, latest first. -/
def written (inside : Option (List Char)) : List Char → List (List Char)
  | [] => []
  | c :: rest =>
    match inside with
    | some text =>
      if c = ')' then text.reverse :: written none rest else written (some (c :: text)) rest
    | none =>
      match c, rest with
      | ']', '(' :: rest => written (some []) rest
      | _, rest => written none rest

/-- The count that a declaration asks for, at most one. -/
def asked (line : String) : Outcome (Option UInt64) := do
  match written none line.toList with
  | [] => return none
  | text :: others =>
    let n ← read (.ofList text)
    if others.isEmpty then return some n else throw (.malformed line .secondCount)

end Phrasebook.Count
