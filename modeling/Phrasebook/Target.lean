import Phrasebook.Kind

/-!
# Targets and trails

A target is what a reference points at: a name of some kind, and possibly one variation of it. A
trail holds the targets that are being expanded, innermost first. No target is ever twice on a
trail: stepping onto one that is there closes a cycle.
-/
namespace Phrasebook

structure Target where
  kind : Kind
  name : String
  variation : Option String
deriving DecidableEq, Repr

def Target.written (t : Target) : String :=
  let variation := match t.variation with
    | some v => "#" ++ v
    | none => ""
  t.kind.sigil.toString ++ "[" ++ t.name ++ variation ++ "]"

abbrev Trail := List Target

/-- The targets from the one that is met again back to itself, outermost first. -/
def Trail.cycle (trail : Trail) (t : Target) : List Target :=
  t :: (trail.takeWhile (· ≠ t)).reverse ++ [t]

def Trail.step? (trail : Trail) (t : Target) : Option Trail :=
  if t ∈ trail then none else some (t :: trail)

end Phrasebook
