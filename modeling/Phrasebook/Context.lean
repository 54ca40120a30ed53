import Phrasebook.Counting
import Phrasebook.Enumeration

/-!
# Contexts

Expansion, counting and enumeration with one trail for the whole walk, which is changed in place. A
walk steps onto a target before it goes into a rule of it and steps off again behind it, whether
the rule failed or not. A context serves any number of calls, one after the other.

A walk is given a depth, so that it ends whatever becomes of the trail: how many targets it may be
on at once, besides those it started on. It gets as many as the trail leaves room for.
-/
namespace Phrasebook

/-- Steps that change a state, which stays as they left it where they fail. Steps that go deeper
than they may give nothing. -/
abbrev Steps (σ : Type) := ExceptT Error (StateT σ Option)

namespace Steps

variable {σ α : Type}

def of (outcome : Outcome α) : Steps σ α := ExceptT.mk (pure outcome)

def tooDeep : Steps σ α := ExceptT.mk fun _ => none

/-- One more change of the state in the end, also behind a failure. -/
abbrev andThen (x : Steps σ α) (change : σ → σ) : Steps σ α :=
  (do
    let outcome ← ExceptT.run x
    modify change
    return outcome : StateT σ Option (Outcome α))

/-- What comes of the steps in a state. -/
def on (x : Steps σ α) (state : σ) : Option (Outcome α × σ) := (ExceptT.run x).run state

end Steps

/-- A decision about a random group: how many words had been taken before it, and after it. -/
structure Decision where
  group : String
  percent : UInt8
  included : Bool
  before : Nat
  after : Nat
deriving DecidableEq, Repr

structure Context where
  pass : Pass
  trail : Trail := []
  /-- All decisions in their order, those that were known already among them. No call reads it. -/
  record : List Decision := []

namespace Context

def decide (group : String) (percent : UInt8) (c : Context) : Bool × Context :=
  let (included, pass) := c.pass.decide group percent
  let decision := ⟨group, percent, included, c.pass.words.taken, pass.words.taken⟩
  (included, { c with pass, record := c.record ++ [decision] })

def includes (m : Modifiers) (c : Context) : Bool × Context :=
  match m.group with
  | some group => c.decide group (m.percent.getD Modifiers.defaultPercent)
  | none => (true, c)

def choose {α : Type} (values : List α) (c : Context) : Option α × Context :=
  let (value, pass) := c.pass.choose values
  (value, { c with pass })

def casing (random : Bool) (c : Context) : Casing × Context :=
  let (casing, pass) := c.pass.casing random
  (casing, { c with pass })

/-- Steps onto a target. Where it is on the trail already the context stays as it was. -/
def enter (t : Target) : Steps Context Unit := do
  let longer ← Steps.of ((← get).trail.step t)
  modify fun c => { c with trail := longer }

/-- Steps off the last target. -/
def leave (c : Context) : Context := { c with trail := c.trail.tail }

end Context

namespace Store

/-! ## Expanding -/

mutual

def expandPieceAt (s : Store) (depth : Nat) (p : Piece) : Steps Context Fragment :=
  match p with
  | .word text => pure (.word text)
  | .group pieces _ m => do
    if ← modifyGet (Context.includes m) then
      let f ← s.expandPiecesAt depth pieces
      let casing ← modifyGet (Context.casing m.casing)
      return f.recase casing
    else return {}
  | .reference kind name m => do
    if ← modifyGet (Context.includes m) then
      let (d, rules) ← Steps.of (s.resolve ⟨kind, name, m.variation⟩)
      match ← modifyGet (Context.choose rules) with
      | none => throw (.withoutRules kind name)
      | some rule =>
        let f ← s.expandWithinAt depth ⟨kind, name, m.variation⟩ rule
        let casing ← modifyGet (Context.casing (m.casing || d.casing))
        let shown := f.recase casing
        return if kind = .slot then shown.tagged name rule.value f.text else shown
    else return {}
termination_by (depth, sizeOf p)
decreasing_by
  · exact Prod.Lex.right _ (by simp only [Piece.group.sizeOf_spec]; omega)
  · exact Prod.Lex.right _ (by simp only [Piece.reference.sizeOf_spec]; omega)

def expandPiecesAt (s : Store) (depth : Nat) (ps : List Piece) : Steps Context Fragment :=
  match ps with
  | [] => pure {}
  | p :: rest => do
    let f ← s.expandPieceAt depth p
    let g ← s.expandPiecesAt depth rest
    return f.append g
termination_by (depth, sizeOf ps)
decreasing_by
  all_goals exact Prod.Lex.right _ (by simp only [List.cons.sizeOf_spec]; omega)

/-- Expands a rule as the body of a target. -/
def expandWithinAt (s : Store) (depth : Nat) (t : Target) (r : Rule) : Steps Context Fragment := do
  Context.enter t
  match depth with
  | 0 => Steps.tooDeep
  | depth + 1 => (s.expandPiecesAt depth r.pieces).andThen Context.leave
termination_by (depth, 0)
decreasing_by exact Prod.Lex.left _ _ (Nat.lt_succ_self _)

end

def expandPieceIn (s : Store) (p : Piece) : Steps Context Fragment := do
  s.expandPieceAt (s.room (← MonadState.get).trail) p

def expandRuleIn (s : Store) (r : Rule) : Steps Context Fragment := do
  s.expandPiecesAt (s.room (← MonadState.get).trail) r.pieces

/-- The target can be any, also one for which there is no room because the store does not have it. -/
def expandWithinIn (s : Store) (t : Target) (r : Rule) : Steps Context Fragment := do
  s.expandWithinAt (s.room (← MonadState.get).trail + 1) t r

/-! ## Counting -/

mutual

def countPieceAt (s : Store) (depth : Nat) (p : Piece) : Steps Trail Combinations :=
  if p.isExcluded then pure (.finite 1)
  else
    match p with
    | .word _ => pure (.finite 1)
    | .group pieces _ _ => s.countPiecesAt depth pieces
    | .reference kind name m => do
      let (_, rules) ← Steps.of (s.resolve ⟨kind, name, m.variation⟩)
      match (← MonadState.get).step? ⟨kind, name, m.variation⟩ with
      | none => return .unbounded
      | some longer =>
        set longer
        match depth with
        | 0 => Steps.tooDeep
        | depth + 1 => (s.countRulesAt depth rules).andThen List.tail
termination_by (depth, sizeOf p)
decreasing_by
  · exact Prod.Lex.right _ (by simp only [Piece.group.sizeOf_spec]; omega)
  · exact Prod.Lex.left _ _ (Nat.lt_succ_self _)

def countPiecesAt (s : Store) (depth : Nat) (ps : List Piece) : Steps Trail Combinations :=
  match ps with
  | [] => pure (.finite 1)
  | p :: rest => do
    let first ← s.countPieceAt depth p
    let others ← s.countPiecesAt depth rest
    return first.times others
termination_by (depth, sizeOf ps)
decreasing_by
  all_goals exact Prod.Lex.right _ (by simp only [List.cons.sizeOf_spec]; omega)

def countRulesAt (s : Store) (depth : Nat) (rules : List Rule) : Steps Trail Combinations :=
  match rules with
  | [] => pure (.finite 0)
  | r :: rest => do
    let first ← s.countPiecesAt depth r.pieces
    let others ← s.countRulesAt depth rest
    return first.plus others
termination_by (depth, sizeOf rules)
decreasing_by
  · cases r
    exact Prod.Lex.right _
      (by simp only [List.cons.sizeOf_spec, Rule.mk.sizeOf_spec]; omega)
  · exact Prod.Lex.right _ (by simp only [List.cons.sizeOf_spec]; omega)

end

def countRuleOn (s : Store) (r : Rule) : Steps Trail Combinations := do
  s.countPiecesAt (s.room (← MonadState.get)) r.pieces

/-! ## Listing -/

mutual

def listPieceAt (s : Store) (depth : Nat) (p : Piece) : Steps Trail (List Fragment) :=
  if p.isExcluded then pure [{}]
  else
    match p with
    | .word text => pure [.word text]
    | .group pieces _ _ => s.listPiecesAt depth pieces
    | .reference kind name m => do
      let (_, rules) ← Steps.of (s.resolve ⟨kind, name, m.variation⟩)
      let longer ← Steps.of ((← MonadState.get).step ⟨kind, name, m.variation⟩)
      set longer
      match depth with
      | 0 => Steps.tooDeep
      | depth + 1 => (s.listRulesAt depth kind name rules).andThen List.tail
termination_by (depth, sizeOf p)
decreasing_by
  · exact Prod.Lex.right _ (by simp only [Piece.group.sizeOf_spec]; omega)
  · exact Prod.Lex.left _ _ (Nat.lt_succ_self _)

def listPiecesAt (s : Store) (depth : Nat) (ps : List Piece) : Steps Trail (List Fragment) :=
  match ps with
  | [] => pure [{}]
  | p :: rest => do
    let first ← s.listPieceAt depth p
    let others ← s.listPiecesAt depth rest
    return combine first others
termination_by (depth, sizeOf ps)
decreasing_by
  all_goals exact Prod.Lex.right _ (by simp only [List.cons.sizeOf_spec]; omega)

def listRulesAt (s : Store) (depth : Nat) (kind : Kind) (name : String) (rules : List Rule) :
    Steps Trail (List Fragment) :=
  match rules with
  | [] => pure []
  | r :: rest => do
    let first ← s.listPiecesAt depth r.pieces
    let others ← s.listRulesAt depth kind name rest
    return first.map (fun f => if kind = .slot then f.tagged name r.value f.text else f) ++ others
termination_by (depth, sizeOf rules)
decreasing_by
  · cases r
    exact Prod.Lex.right _
      (by simp only [List.cons.sizeOf_spec, Rule.mk.sizeOf_spec]; omega)
  · exact Prod.Lex.right _ (by simp only [List.cons.sizeOf_spec]; omega)

end

def listRuleOn (s : Store) (r : Rule) : Steps Trail (List Fragment) := do
  s.listPiecesAt (s.room (← MonadState.get)) r.pieces

/-! ## Calls -/

/-- What a context can be asked for. -/
inductive Call where
  | piece (p : Piece)
  | rule (r : Rule)
  | within (t : Target) (r : Rule)
  | decide (group : String) (percent : UInt8)

/-- The context after a call, whatever came of it. -/
def answer (s : Store) (c : Context) : Call → Option Context
  | .piece p => ((s.expandPieceIn p).on c).map Prod.snd
  | .rule r => ((s.expandRuleIn r).on c).map Prod.snd
  | .within t r => ((s.expandWithinIn t r).on c).map Prod.snd
  | .decide group percent => some (c.decide group percent).2

/-- The context after calls one after the other. -/
def answerAll (s : Store) (c : Context) (calls : List Call) : Option Context :=
  calls.foldlM s.answer c

end Store
end Phrasebook
