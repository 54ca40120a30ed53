import Phrasebook.Counting
import Phrasebook.Enumeration

/-!
# Walks along a trail

Expanding, counting and listing go through a store in the same way: piece by piece, into a group,
and along a reference to the rules it means, one step further on the trail.

* `Store.walk_induction`: what holds of every piece when it holds of what a walk meets inside it,
  for every store, those with cycles and with references to nothing included;
* one equation of counting and one of listing for each kind of piece, and for each way in which a
  reference can end.
-/

namespace Phrasebook.Store

/-- A walk ends: the room that a trail leaves shrinks at every reference it follows, and in between
the pieces get smaller. -/
theorem walk_induction (s : Store) {Q : Trail → Piece → Prop} {P : Trail → List Piece → Prop}
    (word : ∀ trail text, Q trail (.word text))
    (group : ∀ trail pieces value m, P trail pieces → Q trail (.group pieces value m))
    (reference : ∀ trail kind name m,
      (∀ d rules longer, s.resolve ⟨kind, name, m.variation⟩ = .ok (d, rules) →
        trail.step? ⟨kind, name, m.variation⟩ = some longer → ∀ r ∈ rules, P longer r.pieces) →
      Q trail (.reference kind name m))
    (nil : ∀ trail, P trail [])
    (cons : ∀ trail p rest, Q trail p → P trail rest → P trail (p :: rest)) :
    ∀ trail, (∀ p, Q trail p) ∧ ∀ pieces, P trail pieces := by
  intro trail
  generalize hn : s.room trail = n
  -- on the room first, since a reference leads to rules of any size
  induction n using Nat.strongRecOn generalizing trail with
  | ind n ih =>
    have further : ∀ kind name m, Q trail (.reference kind name m) := by
      intro kind name m
      apply reference
      intro d rules longer resolves steps r _
      have less := room_step (mem_targets_of_resolve resolves) steps
      exact (ih _ (hn ▸ less) longer rfl).2 r.pieces
    have pieces : ∀ p, Q trail p :=
      @Piece.rec (Q trail) (P trail) (word trail) (group trail) further (nil trail) (cons trail)
    refine ⟨pieces, fun ps => ?_⟩
    induction ps with
    | nil => exact nil trail
    | cons p rest ih => exact cons trail p rest (pieces p) ih

section
variable {s : Store} {trail longer : Trail} {kind : Kind} {name : String} {m : Modifiers}

/-! ## Counting -/

theorem countPiece_excluded {p : Piece} (h : p.isExcluded = true) :
    s.countPiece trail p = .ok (.finite 1) := by
  rw [countPiece.eq_def, if_pos h]

theorem countPiece_word (text : String) : s.countPiece trail (.word text) = .ok (.finite 1) := by
  rw [countPiece]
  simp

theorem countPiece_group {pieces : List Piece} {value : Option String}
    (h : (Piece.group pieces value m).isExcluded = false) :
    s.countPiece trail (.group pieces value m) = s.countPieces trail pieces := by
  rw [countPiece]
  simp [h]

theorem countPiece_unresolved {e : Error} (h : (Piece.reference kind name m).isExcluded = false)
    (resolves : s.resolve ⟨kind, name, m.variation⟩ = .error e) :
    s.countPiece trail (.reference kind name m) = .error e := by
  rw [countPiece]
  simp only [h, Bool.false_eq_true, if_false]
  split <;> simp_all

theorem countPiece_cycle {d : Definition} {rules : List Rule}
    (h : (Piece.reference kind name m).isExcluded = false)
    (resolves : s.resolve ⟨kind, name, m.variation⟩ = .ok (d, rules))
    (steps : trail.step? ⟨kind, name, m.variation⟩ = none) :
    s.countPiece trail (.reference kind name m) = .ok .unbounded := by
  rw [countPiece]
  simp only [h, Bool.false_eq_true, if_false]
  split
  · simp_all
  · split <;> simp_all

theorem countPiece_reference {d : Definition} {rules : List Rule}
    (h : (Piece.reference kind name m).isExcluded = false)
    (resolves : s.resolve ⟨kind, name, m.variation⟩ = .ok (d, rules))
    (steps : trail.step? ⟨kind, name, m.variation⟩ = some longer) :
    s.countPiece trail (.reference kind name m) = s.countRules longer rules := by
  rw [countPiece]
  simp only [h, Bool.false_eq_true, if_false]
  split
  · simp_all
  · split <;> simp_all

theorem countPieces_nil : s.countPieces trail [] = .ok (.finite 1) := by
  rw [countPieces]

theorem countPieces_cons (p : Piece) (rest : List Piece) :
    s.countPieces trail (p :: rest) = (do
      let first ← s.countPiece trail p
      let others ← s.countPieces trail rest
      return first.times others) := by
  rw [countPieces]

theorem countRules_nil : s.countRules trail [] = .ok (.finite 0) := by
  rw [countRules]

theorem countRules_cons (r : Rule) (rest : List Rule) :
    s.countRules trail (r :: rest) = (do
      let first ← s.countPieces trail r.pieces
      let others ← s.countRules trail rest
      return first.plus others) := by
  rw [countRules]

/-! ## Listing -/

theorem listPiece_excluded {p : Piece} (h : p.isExcluded = true) :
    s.listPiece trail p = .ok [{}] := by
  rw [listPiece.eq_def, if_pos h]

theorem listPiece_word (text : String) :
    s.listPiece trail (.word text) = .ok [.word text] := by
  rw [listPiece]
  simp [Piece.isExcluded, Piece.modifiers, Modifiers.inclusion]

theorem listPiece_group {pieces : List Piece} {value : Option String}
    (h : (Piece.group pieces value m).isExcluded = false) :
    s.listPiece trail (.group pieces value m) = s.listPieces trail pieces := by
  rw [listPiece]
  simp [h]

theorem listPiece_unresolved {e : Error} (h : (Piece.reference kind name m).isExcluded = false)
    (resolves : s.resolve ⟨kind, name, m.variation⟩ = .error e) :
    s.listPiece trail (.reference kind name m) = .error e := by
  rw [listPiece]
  simp only [h, Bool.false_eq_true, if_false]
  split <;> simp_all

theorem listPiece_cycle {d : Definition} {rules : List Rule}
    (h : (Piece.reference kind name m).isExcluded = false)
    (resolves : s.resolve ⟨kind, name, m.variation⟩ = .ok (d, rules))
    (steps : trail.step? ⟨kind, name, m.variation⟩ = none) :
    s.listPiece trail (.reference kind name m) =
      .error (.cycle (trail.cycle ⟨kind, name, m.variation⟩)) := by
  rw [listPiece]
  simp only [h, Bool.false_eq_true, if_false]
  split
  · simp_all
  · split <;> simp_all [Trail.step]

theorem listPiece_reference {d : Definition} {rules : List Rule}
    (h : (Piece.reference kind name m).isExcluded = false)
    (resolves : s.resolve ⟨kind, name, m.variation⟩ = .ok (d, rules))
    (steps : trail.step? ⟨kind, name, m.variation⟩ = some longer) :
    s.listPiece trail (.reference kind name m) = s.listRules longer kind name rules := by
  rw [listPiece]
  simp only [h, Bool.false_eq_true, if_false]
  split
  · simp_all
  · split <;> simp_all [Trail.step]

theorem listPieces_nil : s.listPieces trail [] = .ok [{}] := by
  rw [listPieces]

theorem listPieces_cons (p : Piece) (rest : List Piece) :
    s.listPieces trail (p :: rest) = (do
      let first ← s.listPiece trail p
      let others ← s.listPieces trail rest
      return combine first others) := by
  rw [listPieces]

theorem listRules_nil : s.listRules trail kind name [] = .ok [] := by
  rw [listRules]

theorem listRules_cons (r : Rule) (rest : List Rule) :
    s.listRules trail kind name (r :: rest) = (do
      let first ← s.listPieces trail r.pieces
      let others ← s.listRules trail kind name rest
      return first.map (fun f => if kind = .slot then f.tagged name r.value f.text else f) ++
        others) := by
  rw [listRules]

end
end Phrasebook.Store
