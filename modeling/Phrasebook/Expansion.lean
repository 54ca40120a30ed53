import Phrasebook.Fragment
import Phrasebook.Pass
import Phrasebook.Store

/-!
# Expansion

A rule is expanded piece by piece, from left to right. A reference draws one of the rules it means
and expands it one step further along the trail, so that every expansion ends: a trail can only
step onto targets of the store, and onto each of them once. A piece that is not included is not
looked at, so it can fail neither to resolve nor to end.
-/
namespace Phrasebook

/-- A step further along a trail, onto a target that is not on it. -/
def Trail.step (trail : Trail) (t : Target) : Outcome Trail :=
  match trail.step? t with
  | some longer => .ok longer
  | none => .error (.cycle (trail.cycle t))

theorem Trail.step_eq_ok {trail longer : Trail} {t : Target} :
    trail.step t = .ok longer ↔ trail.step? t = some longer := by
  unfold Trail.step
  split <;> simp_all

namespace Store

mutual

def expandPiece (s : Store) (trail : Trail) (p : Piece) (pass : Pass) : Outcome Fragment × Pass :=
  match p with
  | .word text => (.ok (.word text), pass)
  | .group pieces _ m =>
    match pass.includes m with
    | (false, pass) => (.ok {}, pass)
    | (true, pass) =>
      match s.expandPieces trail pieces pass with
      | (.error e, pass) => (.error e, pass)
      | (.ok f, pass) =>
        let (casing, pass) := pass.casing m.casing
        (.ok (f.recase casing), pass)
  | .reference kind name m =>
    match pass.includes m with
    | (false, pass) => (.ok {}, pass)
    | (true, pass) =>
      match _resolves : s.resolve ⟨kind, name, m.variation⟩ with
      | .error e => (.error e, pass)
      | .ok (d, rules) =>
        match pass.choose rules with
        | (none, pass) => (.error (.withoutRules kind name), pass)
        | (some rule, pass) =>
          match _steps : trail.step ⟨kind, name, m.variation⟩ with
          | .error e => (.error e, pass)
          | .ok longer =>
            match s.expandPieces longer rule.pieces pass with
            | (.error e, pass) => (.error e, pass)
            | (.ok f, pass) =>
              let (casing, pass) := pass.casing (m.casing || d.casing)
              let shown := f.recase casing
              (.ok (if kind = .slot then shown.tagged name rule.value f.text else shown), pass)
termination_by (s.room trail, sizeOf p)
decreasing_by
  · exact Prod.Lex.right _ (by simp only [Piece.group.sizeOf_spec]; omega)
  · exact Prod.Lex.left _ _
      (room_step (mem_targets_of_resolve _resolves) (Trail.step_eq_ok.1 _steps))

def expandPieces (s : Store) (trail : Trail) (ps : List Piece) (pass : Pass) :
    Outcome Fragment × Pass :=
  match ps with
  | [] => (.ok {}, pass)
  | p :: rest =>
    match s.expandPiece trail p pass with
    | (.error e, pass) => (.error e, pass)
    | (.ok f, pass) =>
      match s.expandPieces trail rest pass with
      | (.error e, pass) => (.error e, pass)
      | (.ok g, pass) => (.ok (f.append g), pass)
termination_by (s.room trail, sizeOf ps)
decreasing_by
  all_goals exact Prod.Lex.right _ (by simp only [List.cons.sizeOf_spec]; omega)

end

def expandRule (s : Store) (trail : Trail) (r : Rule) (pass : Pass) : Outcome Fragment × Pass :=
  s.expandPieces trail r.pieces pass

/-- Expands a rule as the body of a target. -/
def expandWithin (s : Store) (trail : Trail) (t : Target) (r : Rule) (pass : Pass) :
    Outcome Fragment × Pass :=
  match trail.step t with
  | .error e => (.error e, pass)
  | .ok longer => s.expandRule longer r pass

end Store
end Phrasebook
