import Phrasebook.Count
import Phrasebook.Kind
import Phrasebook.Shell.CommandLine

/-!
# Commands

What a command line asks for.
-/
namespace Phrasebook

inductive Command where
  | exit
  | stats
  | showDefinition (kind : Kind) (name : String)
  /-- Without a count the declarations decide. -/
  | generate (intent : String) (variation : Option String) (count : Option UInt64)
  | rule (text : String) (count : UInt64)
  | unknown (name : String)
deriving DecidableEq, Repr

namespace Command

/-- A kind's sigil and a name, in brackets or not. -/
def target? (token : String) : Option (Kind × String) :=
  match token.toList with
  | [] => none
  | c :: rest =>
    match Kind.ofSigil? c with
    | none => none
    | some kind =>
      let name := if rest.head? = some '[' && rest.tail.getLast? = some ']'
        then rest.tail.dropLast else rest
      if name.isEmpty then none else some (kind, .ofList name)

def readShow (line : String) (arguments : List String) : Outcome Command :=
  match arguments with
  | [token] =>
    match target? token with
    | some (kind, name) => .ok (.showDefinition kind name)
    | none => .error (.badLine line (.usage .showDefinition))
  | _ => .error (.badLine line (.usage .showDefinition))

/-- A leading argument that starts with a number sign names the variation. -/
def takeVariation (arguments : List String) : Option String × List String :=
  match arguments with
  | token :: rest =>
    match token.toList with
    | '#' :: name => (some (.ofList name), rest)
    | _ => (none, arguments)
  | [] => (none, [])

def readGenerate (line : String) (arguments : List String) : Outcome Command :=
  match arguments with
  | [] => .error (.badLine line (.usage .generate))
  | intent :: rest =>
    match takeVariation rest with
    | (variation, []) => .ok (.generate intent variation none)
    | (variation, [count]) => do return .generate intent variation (some (← Count.read count))
    | _ => .error (.badLine line (.usage .generate))

def readRule (line : String) (arguments : List String) : Outcome Command :=
  match arguments with
  | [text] => .ok (.rule (Shell.unquoted text) 1)
  | [text, count] => do return .rule (Shell.unquoted text) (← Count.read count)
  | _ => .error (.badLine line (.usage .rule))

/-- The command that the first token names; a blank line asks for none. -/
def read (line : String) (tokens : List String) : Outcome (Option Command) :=
  match tokens with
  | [] => .ok none
  | name :: arguments =>
    some <$> match name with
      | "exit" => .ok .exit
      | "stats" => .ok .stats
      | "show" => readShow line arguments
      | "generate" => readGenerate line arguments
      | "rule" => readRule line arguments
      | _ => .ok (.unknown name)

end Command
end Phrasebook
