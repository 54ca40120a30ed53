import Phrasebook.Store

/-!
# Checking references

References that lead nowhere, found without expanding anything. They are reported and nothing more:
a reference that is never reached does no harm.
-/
namespace Phrasebook

/-- A reference in a definition of some kind and name to a target that does not exist. -/
inductive Dangling where
  | undeclared (kind : Kind) (name : String) (target : Target)
  | unknownVariation (kind : Kind) (name : String) (target : Target) (variation : String)
deriving DecidableEq, Repr

def Dangling.message : Dangling → String
  | undeclared kind name t =>
    kind.noun ++ " '" ++ name ++ "' references undeclared " ++ t.kind.noun ++ " '" ++ t.name ++ "'"
  | unknownVariation kind name t v =>
    kind.noun ++ " '" ++ name ++ "' references unknown variation '" ++ v ++ "' of " ++
      t.kind.noun ++ " '" ++ t.name ++ "'"

namespace Store

def checkTarget (s : Store) (kind : Kind) (name : String) (t : Target) : Option Dangling :=
  match s.find? t.kind t.name with
  | none => some (.undeclared kind name t)
  | some d =>
    match t.variation with
    | none => none
    | some v =>
      if (d.variation? (some v)).isSome then none else some (.unknownVariation kind name t v)

/-- Every reference that leads nowhere, in the order of the definitions and their rules. -/
def dangling (s : Store) : List Dangling :=
  Kind.all.flatMap fun kind => (s.definitions kind).flatMap fun d =>
    d.allRules.flatMap fun r => r.targets.filterMap (s.checkTarget kind d.name)

end Store
end Phrasebook
