import Phrasebook.Target

/-!
# Errors

What can go wrong while templates are read, kept, expanded and stored, as causes. `Error.message`
is the one place where causes are put into words.
-/
namespace Phrasebook

/-- Why a bracketed block, or a line built around one, does not follow the block grammar. -/
inductive BlockFault where
  | noOpeningBracket
  | noClosingBracket
  | emptyName
  | emptyVariation
  | secondVariation
  | percentWithoutGroup
  | variationAfterGroup
  | secondGroup
  | percentOutOfRange
  | textBeforeClosing
  | bracketInName
  | unbalanced
  | unclosed
  | strayClosing
  | groupOnDeclaration
  | secondCount
deriving DecidableEq, Repr

def BlockFault.reason : BlockFault → String
  | noOpeningBracket => "expected an opening bracket"
  | noClosingBracket => "missing closing bracket"
  | emptyName => "empty name"
  | emptyVariation => "empty variation name"
  | secondVariation => "more than one variation"
  | percentWithoutGroup => "percentage without a random group"
  | variationAfterGroup => "variation must come before the random group"
  | secondGroup => "more than one random group"
  | percentOutOfRange => "percentage must be an integer between 0 and 100"
  | textBeforeClosing => "unexpected text before closing bracket"
  | bracketInName => "unexpected bracket"
  | unbalanced => "unbalanced brackets"
  | unclosed => "unclosed bracket"
  | strayClosing => "unexpected closing bracket"
  | groupOnDeclaration => "declarations cannot have a random group"
  | secondCount => "expected only one number of generation asked"

inductive Usage where
  | showDefinition
  | generate
  | rule
deriving DecidableEq, Repr

def Usage.form : Usage → String
  | showDefinition => "show <~|@|%>name"
  | generate => "generate <intent> [#variation] [count]"
  | rule => "rule \"<rule>\" [count]"

/-- Why a template or command line cannot be understood. -/
inductive LineFault where
  | emptyRule
  | emptySlotValue
  | orphanRule
  | missingFileName
  | unknownLine
  | textAfterDeclaration
  | missingRedirection
  | usage (form : Usage)
deriving DecidableEq, Repr

def LineFault.reason : LineFault → String
  | emptyRule => "empty rule"
  | emptySlotValue => "empty slot value"
  | orphanRule => "rule outside of any declaration"
  | missingFileName => "missing file name"
  | unknownLine => "expected a declaration, a rule or an include"
  | textAfterDeclaration => "unexpected text after declaration"
  | missingRedirection => "missing redirection file"
  | usage form => "usage: " ++ form.form

inductive CountFault where
  | notPositive (text : String)
  | notAnIntent (count : UInt64)
  | aboveLimit (count limit : UInt64)
deriving DecidableEq, Repr

def CountFault.text : CountFault → String
  | notPositive text => text
  | notAnIntent count => toString count.toNat ++ " (only intents take a generation count)"
  | aboveLimit count limit => toString count.toNat ++ " (at most " ++ toString limit.toNat ++ ")"

/-- What was declared again: a whole definition, or one variation of it. -/
inductive Redeclared where
  | definition
  | variation (name : Option String)
deriving DecidableEq, Repr

/-- How a variation is called in messages. -/
def variationLabel (name : Option String) : String := name.getD "<default>"

def Redeclared.label : Redeclared → String
  | definition => "*"
  | variation name => variationLabel name

inductive FileFault where
  | notFound
  | alreadyExists
  | notDirectory
  | isDirectory
  | nameTooLong
  | nulInPath
  | invalidText
  | noSourceName
  | noName
  | denied
deriving DecidableEq, Repr

def FileFault.message : FileFault → String
  | notFound => "No such file or directory (os error 2)"
  | alreadyExists => "File exists (os error 17)"
  | notDirectory => "Not a directory (os error 20)"
  | isDirectory => "Is a directory (os error 21)"
  | nameTooLong => "File name too long (os error 36)"
  | nulInPath => "file name contained an unexpected NUL byte"
  | invalidText => "stream did not contain valid UTF-8"
  | noSourceName => "input path has no filename"
  | noName => "path has no filename"
  | denied => "Permission denied (os error 13)"

inductive IncludeFault where
  | unreachable (fault : FileFault)
  | circular
deriving DecidableEq, Repr

def IncludeFault.reason : IncludeFault → String
  | unreachable fault => fault.message
  | circular => "circular include"

/-- Uses of the library that no template text leads to. -/
inductive Misuse where
  | notAUnit (text : String)
  | notADeclaration (head : String)
  | intentRules
deriving DecidableEq, Repr

def Misuse.message : Misuse → String
  | notAUnit text => "tried to get the unit type of '" ++ text ++ "', which is not a unit"
  | notADeclaration head => "'" ++ head ++ "' is not a declaration"
  | intentRules => "intent rules must be flattened with all_rules_in_intent_variations"

inductive Error where
  | malformed (text : String) (fault : BlockFault)
  | badLine (text : String) (fault : LineFault)
  | undeclared (kind : Kind) (name : String)
  | unknownVariation (kind : Kind) (name variation : String)
  | reservedVariation (name : String)
  | cycle (chain : List Target)
  | invalidCount (fault : CountFault)
  | duplicate (kind : Kind) (name : String) (what : Redeclared)
  | withoutRules (kind : Kind) (name : String)
  | atLine (origin : String) (line : Nat) (cause : Error)
  | notIncluded (path : String) (fault : IncludeFault)
  | misuse (fault : Misuse)
  | file (fault : FileFault)
deriving DecidableEq, Repr

namespace Error

def message : Error → String
  | malformed text fault => "malformed modifier in '" ++ text ++ "': " ++ fault.reason
  | badLine text fault => "syntax error in '" ++ text ++ "': " ++ fault.reason
  | undeclared kind name => kind.noun ++ " '" ++ name ++ "' is not declared"
  | unknownVariation kind name variation =>
    kind.noun ++ " '" ++ name ++ "' has no variation '" ++ variation ++ "'"
  | reservedVariation name => "variation name '" ++ name ++ "' is reserved"
  | cycle chain => "resolution cycle: " ++ " -> ".intercalate (chain.map Target.written)
  | invalidCount fault => "invalid generation count '" ++ fault.text ++ "'"
  | duplicate kind name what =>
    kind.noun ++ " '" ++ name ++ "' is declared more than once (variation: " ++ what.label ++ ")"
  | withoutRules kind name => kind.noun ++ " '" ++ name ++ "' is declared without any rule"
  | atLine origin line cause => origin ++ ":" ++ toString line ++ ": " ++ cause.message
  | notIncluded path fault => "cannot include '" ++ path ++ "': " ++ fault.reason
  | misuse fault => "internal error: " ++ fault.message
  | file fault => "I/O error: " ++ fault.message

/-- An error that has a place already, in an included file, keeps it. -/
def locate (origin : String) (line : Nat) : Error → Error
  | atLine origin line cause => atLine origin line cause
  | e => atLine origin line e

/-- The error without its place. -/
def root : Error → Error
  | atLine _ _ cause => cause.root
  | e => e

/-- The request asked for an intent, a variation of one, or a count that cannot be given. -/
def blamesRequest (e : Error) : Bool :=
  match e.root with
  | undeclared .intent _ => true
  | unknownVariation .intent _ _ => true
  | invalidCount _ => true
  | _ => false

end Error

/-- A step that stops at its first error. -/
abbrev Outcome := Except Error

end Phrasebook
