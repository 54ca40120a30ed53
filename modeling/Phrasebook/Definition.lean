import Phrasebook.Error
import Phrasebook.Rule

/-!
# Definitions

A definition is a named alias, slot or intent. Its rules come in variations, at most one of them
without a name. An intent's variation may say how many utterances are wanted from it.
-/
namespace Phrasebook

structure Variation where
  name : Option String
  count : Option UInt64
  rules : List Rule
deriving Repr

structure Definition where
  name : String
  kind : Kind
  casing : Bool
  variations : List Variation
deriving Repr

/-- One variation as a template declares it. -/
structure Declaration where
  kind : Kind
  name : String
  casing : Bool
  variation : Variation
deriving Repr

/-- Variation names that authors cannot use. -/
def reservedVariations : List String := ["all-variations-aggregation", "rules", "nb-gen-asked"]

namespace Definition

def start (kind : Kind) (name : String) : Definition := ⟨name, kind, false, []⟩

def variation? (d : Definition) (name : Option String) : Option Variation :=
  d.variations.find? (·.name = name)

/-- Why a variation cannot be added: the first reason counts. -/
def refusal? (d : Definition) (v : Variation) : Option Error :=
  if let some name := v.name.filter reservedVariations.contains then
    some (.reservedVariation name)
  else if let some count := v.count.filter fun _ => d.kind ≠ .intent then
    some (.invalidCount (.notAnIntent count))
  else if v.rules.isEmpty then some (.withoutRules d.kind d.name)
  else if (d.variation? v.name).isSome then
    some (.duplicate d.kind d.name (.variation v.name))
  else none

def add (d : Definition) (v : Variation) : Outcome Definition :=
  match d.refusal? v with
  | some e => .error e
  | none => .ok { d with variations := d.variations ++ [v] }

def allRules (d : Definition) : List Rule := d.variations.flatMap (·.rules)

/-- The rules a reference draws from: those of the variation it names, or all of them. -/
def rulesOf (d : Definition) : Option String → Outcome (List Rule)
  | none => .ok d.allRules
  | some name =>
    match d.variation? (some name) with
    | some v => .ok v.rules
    | none => .error (.unknownVariation d.kind d.name name)

end Definition
end Phrasebook
