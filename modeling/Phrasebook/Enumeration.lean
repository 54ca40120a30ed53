import Phrasebook.Expansion

/-!
# Enumeration

Every fragment that a rule can expand to when all its pieces are included, zero percent excepted,
and nothing is recased. The texts of the first piece vary slowest.
-/
namespace Phrasebook.Store

/-- Each of the first fragments followed by each of the second. -/
def combine (first others : List Fragment) : List Fragment :=
  first.flatMap fun f => others.map f.append

mutual

def listPiece (s : Store) (trail : Trail) (p : Piece) : Outcome (List Fragment) :=
  if p.isExcluded then .ok [{}]
  else
    match p with
    | .word text => .ok [.word text]
    | .group pieces _ _ => s.listPieces trail pieces
    | .reference kind name m =>
      match _resolves : s.resolve ⟨kind, name, m.variation⟩ with
      | .error e => .error e
      | .ok (_, rules) =>
        match _steps : trail.step ⟨kind, name, m.variation⟩ with
        | .error e => .error e
        | .ok longer => s.listRules longer kind name rules
termination_by (s.room trail, sizeOf p)
decreasing_by
  · exact Prod.Lex.right _ (by simp only [Piece.group.sizeOf_spec]; omega)
  · exact Prod.Lex.left _ _
      (room_step (mem_targets_of_resolve _resolves) (Trail.step_eq_ok.1 _steps))

def listPieces (s : Store) (trail : Trail) (ps : List Piece) : Outcome (List Fragment) :=
  match ps with
  | [] => .ok [{}]
  | p :: rest => do
    let first ← s.listPiece trail p
    let others ← s.listPieces trail rest
    return combine first others
termination_by (s.room trail, sizeOf ps)
decreasing_by
  all_goals exact Prod.Lex.right _ (by simp only [List.cons.sizeOf_spec]; omega)

/-- The fragments of a definition's rules, marked as its own where it is a slot. -/
def listRules (s : Store) (trail : Trail) (kind : Kind) (name : String) (rules : List Rule) :
    Outcome (List Fragment) :=
  match rules with
  | [] => .ok []
  | r :: rest => do
    let first ← s.listPieces trail r.pieces
    let others ← s.listRules trail kind name rest
    return first.map (fun f => if kind = .slot then f.tagged name r.value f.text else f) ++ others
termination_by (s.room trail, sizeOf rules)
decreasing_by
  · cases r
    exact Prod.Lex.right _
      (by simp only [List.cons.sizeOf_spec, Rule.mk.sizeOf_spec]; omega)
  · exact Prod.Lex.right _ (by simp only [List.cons.sizeOf_spec]; omega)

end

def listRule (s : Store) (trail : Trail) (r : Rule) : Outcome (List Fragment) :=
  s.listPieces trail r.pieces

end Phrasebook.Store
