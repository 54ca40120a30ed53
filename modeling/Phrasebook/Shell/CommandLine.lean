import Phrasebook.Error
import Phrasebook.Text.Blank

/-!
# Command lines

A command line is cut into tokens at blanks. Blanks between double quotes do not cut, and the quotes
stay part of their token. A token that is a single `>` sends the output to the file that the next
token names.
-/
namespace Phrasebook

namespace Shell

/-- The tokens of the rest of a line, inside the token read so far, latest character first. -/
def tokensFrom (token : List Char) (quoted : Bool) : List Char → List (List Char)
  | [] => if token.isEmpty then [] else [token.reverse]
  | c :: rest =>
    if c = '"' then tokensFrom (c :: token) (!quoted) rest
    else if Text.isBlank c && !quoted then
      if token.isEmpty then tokensFrom [] quoted rest
      else token.reverse :: tokensFrom [] quoted rest
    else tokensFrom (c :: token) quoted rest

def tokens (line : String) : List String := (tokensFrom [] false line.toList).map String.ofList

/-- A token without the quotes at its ends. -/
def unquoted (token : String) : String :=
  .ofList ((token.toList.dropWhile (· = '"')).reverse.dropWhile (· = '"')).reverse

end Shell

structure CommandLine where
  tokens : List String
  redirection : Option String
deriving DecidableEq, Repr

def CommandLine.read (line : String) : Outcome CommandLine :=
  let all := Shell.tokens line
  let before := all.takeWhile (· ≠ ">")
  match all.drop before.length with
  | [] => .ok ⟨all, none⟩
  | [_] => .error (.badLine line .missingRedirection)
  | _ :: target :: after => .ok ⟨before ++ after, some (Shell.unquoted target)⟩

end Phrasebook
