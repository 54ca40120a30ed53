import Phrasebook.Combinations
import Phrasebook.Expansion

/-!
# Counting

The number of combinations of a rule, random groups counted as included: the product over its
pieces, where a reference has the sum over the rules it means. A reference that closes a cycle makes
the number unbounded. Pieces at zero percent are never there and count as one empty text.
-/
namespace Phrasebook.Store

mutual

def countPiece (s : Store) (trail : Trail) (p : Piece) : Outcome Combinations :=
  if p.isExcluded then .ok (.finite 1)
  else
    match p with
    | .word _ => .ok (.finite 1)
    | .group pieces _ _ => s.countPieces trail pieces
    | .reference kind name m =>
      match _resolves : s.resolve ⟨kind, name, m.variation⟩ with
      | .error e => .error e
      | .ok (_, rules) =>
        match _steps : trail.step? ⟨kind, name, m.variation⟩ with
        | none => .ok .unbounded
        | some longer => s.countRules longer rules
termination_by (s.room trail, sizeOf p)
decreasing_by
  · exact Prod.Lex.right _ (by simp only [Piece.group.sizeOf_spec]; omega)
  · exact Prod.Lex.left _ _ (room_step (mem_targets_of_resolve _resolves) _steps)

def countPieces (s : Store) (trail : Trail) (ps : List Piece) : Outcome Combinations :=
  match ps with
  | [] => .ok (.finite 1)
  | p :: rest => do
    let first ← s.countPiece trail p
    let others ← s.countPieces trail rest
    return first.times others
termination_by (s.room trail, sizeOf ps)
decreasing_by
  all_goals exact Prod.Lex.right _ (by simp only [List.cons.sizeOf_spec]; omega)

def countRules (s : Store) (trail : Trail) (rules : List Rule) : Outcome Combinations :=
  match rules with
  | [] => .ok (.finite 0)
  | r :: rest => do
    let first ← s.countPieces trail r.pieces
    let others ← s.countRules trail rest
    return first.plus others
termination_by (s.room trail, sizeOf rules)
decreasing_by
  · cases r
    exact Prod.Lex.right _
      (by simp only [List.cons.sizeOf_spec, Rule.mk.sizeOf_spec]; omega)
  · exact Prod.Lex.right _ (by simp only [List.cons.sizeOf_spec]; omega)

end

def countRule (s : Store) (trail : Trail) (r : Rule) : Outcome Combinations :=
  s.countPieces trail r.pieces

end Phrasebook.Store
