import Phrasebook.Settings
import Phrasebook.Text.Numeral

/-!
# Program arguments

The program takes a template and options. An option's value follows it, as the next argument or in
the same one: `--seed 7`, `--seed=7`, `-s 7`, `-s7`, `-s=7`. Short options can be joined, and after
a double dash nothing is an option. Arguments are taken in order, and the first that is wrong, or
that asks for help or the version, ends the reading. No option may be given twice.
-/
namespace Phrasebook

structure Arguments where
  template : String
  output : String := "output"
  seed : Option UInt64 := none
  maxEnumeration : Option UInt64 := none
  fallback : Option UInt64 := none
  dedupFactor : Option UInt64 := none
  maxCount : Option UInt64 := none
  interactive : Bool := false
  cache : Bool := false
deriving DecidableEq, Repr

namespace Arguments

/-- Why the arguments are not followed. -/
inductive Refusal where
  | misuse
  | help
  | version
deriving DecidableEq, Repr

inductive Flag where
  | interactive
  | cache
  | help
  | version
deriving DecidableEq, Repr

inductive Parameter where
  | output
  | seed
  | maxEnumeration
  | fallback
  | dedupFactor
  | maxCount
deriving DecidableEq, Repr

/-- A parameter takes a value, a flag does not. -/
inductive Switch where
  | flag (f : Flag)
  | parameter (p : Parameter)
deriving DecidableEq, Repr

def Switch.long? (name : String) : Option Switch :=
  match name with
  | "output" => some (.parameter .output)
  | "seed" => some (.parameter .seed)
  | "max-enumeration" => some (.parameter .maxEnumeration)
  | "fallback-count" => some (.parameter .fallback)
  | "dedup-factor" => some (.parameter .dedupFactor)
  | "max-count" => some (.parameter .maxCount)
  | "interactive" => some (.flag .interactive)
  | "cache" => some (.flag .cache)
  | "help" => some (.flag .help)
  | "version" => some (.flag .version)
  | _ => none

def Switch.short? (c : Char) : Option Switch :=
  match c with
  | 'o' => some (.parameter .output)
  | 's' => some (.parameter .seed)
  | 'i' => some (.flag .interactive)
  | 'h' => some (.flag .help)
  | 'V' => some (.flag .version)
  | _ => none

/-- The arguments read so far. -/
structure Progress where
  template : Option String := none
  output : Option String := none
  numbers : List (Parameter × UInt64) := []
  interactive : Bool := false
  cache : Bool := false
  /-- The parameter whose value is to come. -/
  awaiting : Option Parameter := none
  onlyNames : Bool := false

namespace Progress

/-- Paths cannot be empty, and all other values are numbers. -/
def give (r : Progress) (p : Parameter) (value : String) : Except Refusal Progress :=
  let r := { r with awaiting := none }
  if p = .output then
    if value.isEmpty || r.output.isSome then .error .misuse else .ok { r with output := some value }
  else
    match Text.word64? value.toList with
    | none => .error .misuse
    | some n =>
      if (r.numbers.lookup p).isSome then .error .misuse
      else .ok { r with numbers := (p, n) :: r.numbers }

def raise (r : Progress) : Flag → Except Refusal Progress
  | .help => .error .help
  | .version => .error .version
  | .interactive => if r.interactive then .error .misuse else .ok { r with interactive := true }
  | .cache => if r.cache then .error .misuse else .ok { r with cache := true }

def name (r : Progress) (value : String) : Except Refusal Progress :=
  if value.isEmpty || r.template.isSome then .error .misuse
  else .ok { r with template := some value }

/-- What follows the two dashes of a long option. -/
def long (r : Progress) (text : List Char) : Except Refusal Progress :=
  match Switch.long? (.ofList (text.takeWhile (· ≠ '='))), text.dropWhile (· ≠ '=') with
  | some (.flag f), [] => r.raise f
  | some (.parameter p), [] => .ok { r with awaiting := some p }
  | some (.parameter p), _ :: value => r.give p (.ofList value)
  | _, _ => .error .misuse

/-- What follows the dash of short options. -/
def short (r : Progress) : List Char → Except Refusal Progress
  | [] => .ok r
  | c :: rest =>
    match Switch.short? c with
    | none => .error .misuse
    | some (.flag f) => do (← r.raise f).short rest
    | some (.parameter p) =>
      match rest with
      | [] => .ok { r with awaiting := some p }
      | '=' :: value => r.give p (.ofList value)
      | value => r.give p (.ofList value)

/-- A parameter's value cannot start with a dash, unless the dash is all of it. -/
def step (r : Progress) (argument : String) : Except Refusal Progress :=
  if r.onlyNames then r.name argument
  else
    match argument.toList, r.awaiting with
    | '-' :: _ :: _, some _ => .error .misuse
    | ['-', '-'], none => .ok { r with onlyNames := true }
    | '-' :: '-' :: text, none => r.long text
    | '-' :: c :: text, none => r.short (c :: text)
    | _, some p => r.give p argument
    | _, none => r.name argument

def finish (r : Progress) : Except Refusal Arguments :=
  match r.template, r.awaiting with
  | some template, none =>
    .ok {
      template
      output := r.output.getD "output"
      seed := r.numbers.lookup .seed
      maxEnumeration := r.numbers.lookup .maxEnumeration
      fallback := r.numbers.lookup .fallback
      dedupFactor := r.numbers.lookup .dedupFactor
      maxCount := r.numbers.lookup .maxCount
      interactive := r.interactive
      cache := r.cache }
  | _, _ => .error .misuse

end Progress

def read (arguments : List String) : Except Refusal Arguments := do
  (← arguments.foldlM Progress.step {}).finish

/-- The settings that are asked for; the others keep their defaults. -/
def settings (a : Arguments) : Outcome Settings :=
  let defaults : Settings := {}
  let s : Settings :=
    { defaults with
      seed := a.seed
      maxEnumeration := a.maxEnumeration.getD defaults.maxEnumeration
      maxCount := a.maxCount.getD defaults.maxCount
      dedupFactor := a.dedupFactor.getD defaults.dedupFactor }
  match a.fallback with
  | some n => s.withFallback n
  | none => .ok s

end Arguments
end Phrasebook
