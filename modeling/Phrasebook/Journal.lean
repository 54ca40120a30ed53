import Phrasebook.Context

/-!
# Journals

Expansion, counting and enumeration once more, as walks that nothing bounds: no depth is given, and
none is needed for the definitions to make sense. A walk follows references as they come, and one
that goes on forever gives nothing. A journal notes every task that a walk comes to, with the
trail there.
-/
namespace Phrasebook

/-- What a walk has before it: pieces one after the other, or the rules that a reference means. -/
inductive Task where
  | pieces (ps : List Piece)
  | rules (rules : List Rule)

structure Journal where
  pass : Pass
  trail : Trail := []
  /-- All tasks in their order, each with the trail there. No walk reads them. -/
  calls : List (Trail × Task) := []

namespace Journal

def note (task : Task) (j : Journal) : Journal :=
  { j with calls := j.calls ++ [(j.trail, task)] }

def draw {α : Type} (choice : Pass → α × Pass) (j : Journal) : α × Journal :=
  let (a, pass) := choice j.pass
  (a, { j with pass })

def enter (longer : Trail) (j : Journal) : Journal := { j with trail := longer }

def leave (j : Journal) : Journal := { j with trail := j.trail.tail }

/-- Steps on rules, made further along, and off again behind them, also behind a failure. -/
abbrev further {α : Type} (longer : Trail) (rules : List Rule) (x : Steps Journal α) :
    Steps Journal α := do
  modify fun j => (j.enter longer).note (.rules rules)
  x.andThen leave

end Journal

/-- What a walk does with pieces one after the other. -/
abbrev Walk (α : Type) := List Piece → Steps Journal α

/-- A call of a walk, from outside or by the walk itself. -/
abbrev Walk.call {α : Type} (walk : Walk α) (pieces : List Piece) : Steps Journal α := do
  modify (Journal.note (.pieces pieces))
  walk pieces

namespace Store

def expandPiecesNoted (s : Store) : Walk Fragment
  | [] => return {}
  | p :: rest => do
    let f ← (match p with
      | .word text => return .word text
      | .group pieces _ m => do
        if ← modifyGet (Journal.draw (Pass.includes m)) then
          let f ← s.expandPiecesNoted.call pieces
          let casing ← modifyGet (Journal.draw (Pass.casing m.casing))
          return f.recase casing
        else return {}
      | .reference kind name m => do
        if ← modifyGet (Journal.draw (Pass.includes m)) then
          let (d, rules) ← Steps.of (s.resolve ⟨kind, name, m.variation⟩)
          match ← modifyGet (Journal.draw (Pass.choose rules)) with
          | none => throw (.withoutRules kind name)
          | some rule =>
            let longer ← Steps.of ((← MonadState.get).trail.step ⟨kind, name, m.variation⟩)
            let f ← Journal.further longer rules (s.expandPiecesNoted.call rule.pieces)
            let casing ← modifyGet (Journal.draw (Pass.casing (m.casing || d.casing)))
            let shown := f.recase casing
            return if kind = .slot then shown.tagged name rule.value f.text else shown
        else return {})
    let g ← s.expandPiecesNoted.call rest
    return f.append g
partial_fixpoint

def countPiecesNoted (s : Store) : Walk Combinations
  | [] => return .finite 1
  | p :: rest => do
    let first ← (
      if p.isExcluded then return .finite 1
      else
        match p with
        | .word _ => return .finite 1
        | .group pieces _ _ => s.countPiecesNoted.call pieces
        | .reference kind name m => do
          let (_, rules) ← Steps.of (s.resolve ⟨kind, name, m.variation⟩)
          match (← MonadState.get).trail.step? ⟨kind, name, m.variation⟩ with
          | none => return .unbounded
          | some longer =>
            let counted ← Journal.further longer rules
              (rules.mapM fun r => s.countPiecesNoted.call r.pieces)
            return counted.foldr .plus (.finite 0))
    let others ← s.countPiecesNoted.call rest
    return first.times others
partial_fixpoint

def listPiecesNoted (s : Store) : Walk (List Fragment)
  | [] => return [{}]
  | p :: rest => do
    let first ← (
      if p.isExcluded then return [{}]
      else
        match p with
        | .word text => return [.word text]
        | .group pieces _ _ => s.listPiecesNoted.call pieces
        | .reference kind name m => do
          let (_, rules) ← Steps.of (s.resolve ⟨kind, name, m.variation⟩)
          let longer ← Steps.of ((← MonadState.get).trail.step ⟨kind, name, m.variation⟩)
          let listed ← Journal.further longer rules (rules.mapM fun r => do
            let fragments ← s.listPiecesNoted.call r.pieces
            return fragments.map fun f =>
              if kind = .slot then f.tagged name r.value f.text else f)
          return listed.flatten)
    let others ← s.listPiecesNoted.call rest
    return combine first others
partial_fixpoint

end Store
end Phrasebook
