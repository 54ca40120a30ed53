import Phrasebook.Definition
import Phrasebook.Rule.Printer
import Phrasebook.Text.Blank

/-!
# Writing definitions back

A definition in template form: one declaration for each variation, with its rules below it.
-/
namespace Phrasebook

/-- The declaration of a variation, whose names are written as they are, and its rules. -/
def Variation.written (kind : Kind) (name : String) (casing : Bool) (v : Variation) : String :=
  let mark := if casing then "&" else ""
  let variation := match v.name with
    | some n => "#" ++ n
    | none => ""
  let count := match v.count with
    | some n => "(" ++ toString n.toNat ++ ")"
    | none => ""
  kind.sigil.toString ++ "[" ++ mark ++ name ++ variation ++ "]" ++ count ++
    String.join (v.rules.map fun r => "\n  " ++ r.written) ++ "\n"

/-- A definition as it is known under a kind and a name, without blanks at the end. -/
def Definition.written (kind : Kind) (name : String) (d : Definition) : String :=
  let blocks := d.variations.map (·.written kind name d.casing)
  .ofList (Text.trimEnd (String.join blocks).toList)

end Phrasebook
