import Phrasebook.Proofs.Outcome
import Phrasebook.Proofs.Reach

/-!
# Where a walk fails

Expanding, counting and listing fail at a reference that cannot be followed, and nowhere else.

* `Store.Visits`: walking along some pieces comes to a reference, with the trail that is behind it
  there;
* `Store.Halts`: why a reference is not followed, with the error that says so;
* `expandPieces_halts`, `countPieces_halts`, `listPieces_halts`: each walk that fails has come to
  such a reference, and its error is the one from there. Counting does not fail at a cycle;
* `Visits.reaches`: what a walk comes to is reached along references.
-/

namespace Phrasebook.Store

/-- Walking along the pieces with a trail behind it comes to a reference to the target, where the
trail is the later one. Pieces that do not satisfy `enters` are passed over. -/
inductive Visits (s : Store) (enters : Piece → Prop) :
    Trail → List Piece → Trail → Target → Prop
  | reference {trail kind name m rest} (there : enters (.reference kind name m)) :
      Visits s enters trail (.reference kind name m :: rest) trail ⟨kind, name, m.variation⟩
  | inGroup {trail pieces value m rest later t} (there : enters (.group pieces value m))
      (inside : Visits s enters trail pieces later t) :
      Visits s enters trail (.group pieces value m :: rest) later t
  | inRule {trail longer kind name m rest d rules r later t}
      (there : enters (.reference kind name m))
      (resolves : s.resolve ⟨kind, name, m.variation⟩ = .ok (d, rules)) (known : r ∈ rules)
      (steps : trail.step? ⟨kind, name, m.variation⟩ = some longer)
      (inside : Visits s enters longer r.pieces later t) :
      Visits s enters trail (.reference kind name m :: rest) later t
  | after {trail p rest later t} (others : Visits s enters trail rest later t) :
      Visits s enters trail (p :: rest) later t

/-- Why a walk does not go on behind a reference to the target. -/
inductive Halts (s : Store) (trail : Trail) (t : Target) : Error → Prop
  | unresolved {e} (resolves : s.resolve t = .error e) : Halts s trail t e
  | ruleless {d} (resolves : s.resolve t = .ok (d, [])) :
      Halts s trail t (.withoutRules t.kind t.name)
  | cycle {d rules} (resolves : s.resolve t = .ok (d, rules)) (steps : trail.step? t = none) :
      Halts s trail t (.cycle (trail.cycle t))

section
variable {s : Store} {enters : Piece → Prop} {trail later : Trail} {t : Target} {p : Piece}
  {pieces rest : List Piece} {rules : List Rule} {e : Error}

/-- What comes first is also there when more follows. -/
theorem Visits.before (h : s.Visits enters trail [p] later t) :
    s.Visits enters trail (p :: rest) later t := by
  cases h with
  | reference there => exact .reference there
  | inGroup there inside => exact .inGroup there inside
  | inRule there resolves known steps inside => exact .inRule there resolves known steps inside
  | after others => cases others

theorem Visits.mono {more : Piece → Prop} (h : s.Visits enters trail pieces later t)
    (all : ∀ p, enters p → more p) : s.Visits more trail pieces later t := by
  induction h with
  | reference there => exact .reference (all _ there)
  | inGroup there _ ih => exact .inGroup (all _ there) ih
  | inRule there resolves known steps _ ih => exact .inRule (all _ there) resolves known steps ih
  | after _ ih => exact .after ih

theorem Visits.reaches (h : s.Visits enters trail pieces later t) : s.Reaches enters pieces t := by
  induction h with
  | reference there => exact ⟨_, .reference there, .refl⟩
  | inGroup there _ ih =>
    obtain ⟨first, refers, further⟩ := ih
    exact ⟨first, .inGroup there refers, further⟩
  | inRule there resolves known _ _ ih =>
    exact Reaches.inRule ⟨_, .reference there, .refl⟩ resolves known ih
  | after _ ih =>
    obtain ⟨first, refers, further⟩ := ih
    exact ⟨first, .later refers, further⟩

/-- Somewhere along the pieces the walk comes to a reference that gives the error. -/
def FailsAlong (s : Store) (enters : Piece → Prop) (halts : Trail → Target → Error → Prop)
    (trail : Trail) (pieces : List Piece) (e : Error) : Prop :=
  ∃ later t, s.Visits enters trail pieces later t ∧ halts later t e

section
variable {halts : Trail → Target → Error → Prop} {kind : Kind} {name : String} {m : Modifiers}

theorem FailsAlong.reference (there : enters (.reference kind name m))
    (h : halts trail ⟨kind, name, m.variation⟩ e) :
    s.FailsAlong enters halts trail [.reference kind name m] e :=
  ⟨trail, _, .reference there, h⟩

theorem FailsAlong.inGroup {value : Option String} (there : enters (.group pieces value m))
    (h : s.FailsAlong enters halts trail pieces e) :
    s.FailsAlong enters halts trail [.group pieces value m] e := by
  obtain ⟨later, t, inside, fails⟩ := h
  exact ⟨later, t, .inGroup there inside, fails⟩

theorem FailsAlong.inRule {d : Definition} {r : Rule} {longer : Trail}
    (there : enters (.reference kind name m))
    (resolves : s.resolve ⟨kind, name, m.variation⟩ = .ok (d, rules)) (known : r ∈ rules)
    (steps : trail.step? ⟨kind, name, m.variation⟩ = some longer)
    (h : s.FailsAlong enters halts longer r.pieces e) :
    s.FailsAlong enters halts trail [.reference kind name m] e := by
  obtain ⟨later, t, inside, fails⟩ := h
  exact ⟨later, t, .inRule there resolves known steps inside, fails⟩

theorem FailsAlong.before (h : s.FailsAlong enters halts trail [p] e) (rest : List Piece) :
    s.FailsAlong enters halts trail (p :: rest) e := by
  obtain ⟨later, t, first, fails⟩ := h
  exact ⟨later, t, first.before, fails⟩

theorem FailsAlong.after (h : s.FailsAlong enters halts trail rest e) (p : Piece) :
    s.FailsAlong enters halts trail (p :: rest) e := by
  obtain ⟨later, t, others, fails⟩ := h
  exact ⟨later, t, .after others, fails⟩

end

/-! ## Expanding -/

theorem expandPieces_halts (s : Store) (trail : Trail) (pieces : List Piece) (pass : Pass) :
    FailsAs (s.FailsAlong (fun _ => True) s.Halts trail pieces)
      (s.expandPieces trail pieces pass).1 := by
  let along := s.FailsAlong (fun _ => True) s.Halts
  suffices all : ∀ pass e last, s.expandPieces trail pieces pass = (.error e, last) →
      along trail pieces e from fun e failed => all pass e _ (Prod.ext failed rfl)
  refine (s.walk_induction
    (Q := fun trail p => ∀ pass e last, s.expandPiece trail p pass = (.error e, last) →
      along trail [p] e)
    (P := fun trail pieces => ∀ pass e last, s.expandPieces trail pieces pass = (.error e, last) →
      along trail pieces e) ?word ?group ?reference ?nil ?cons trail).2 pieces
  case word =>
    intro trail text pass e last failed
    rw [expandPiece_word] at failed
    cases failed
  case group =>
    intro trail pieces value m ih pass e last failed
    have expanded := expandPiece_expanded s trail (.group pieces value m) pass
    rw [failed] at expanded
    cases expanded with
    | groupFailed _ body => exact .inGroup trivial (ih _ _ _ body)
  case reference =>
    intro trail kind name m ih pass e last failed
    have expanded := expandPiece_expanded s trail (.reference kind name m) pass
    rw [failed] at expanded
    cases expanded with
    | unresolved _ resolves => exact .reference trivial (.unresolved resolves)
    | ruleless _ resolves draws =>
      cases choose_none draws
      exact .reference trivial (.ruleless resolves)
    | cycle _ resolves _ steps => exact .reference trivial (.cycle resolves steps)
    | referenceFailed _ resolves draws steps body =>
      have known := mem_of_choose draws
      exact .inRule trivial resolves known steps (ih _ _ _ resolves steps _ known _ _ _ body)
  case nil =>
    intro trail pass e last failed
    rw [expandPieces_nil] at failed
    cases failed
  case cons =>
    intro trail p rest one others pass e last failed
    have expanded := expandPieces_expanded s trail p rest pass
    rw [failed] at expanded
    cases expanded with
    | failed first => exact (one _ _ _ first).before rest
    | failedLater _ behind => exact (others _ _ _ behind).after p

/-! ## Counting -/

theorem countRules_fails {P : Error → Prop}
    (each : ∀ r ∈ rules, FailsAs P (s.countPieces trail r.pieces)) :
    FailsAs P (s.countRules trail rules) := by
  induction rules with
  | nil => simp [countRules_nil]
  | cons r rest ih =>
    rw [countRules_cons]
    have others := ih fun r hr => each r (List.mem_cons_of_mem _ hr)
    exact (each r List.mem_cons_self).both others _

/-- A cycle is no failure for counting, so nothing is left but what does not resolve. -/
theorem countPieces_halts (s : Store) (trail : Trail) (pieces : List Piece) :
    FailsAs (s.FailsAlong (fun p => p.isExcluded = false) (fun _ t e => s.resolve t = .error e)
      trail pieces) (s.countPieces trail pieces) := by
  let along := s.FailsAlong (fun p => p.isExcluded = false) fun _ t e => s.resolve t = .error e
  refine (s.walk_induction
    (Q := fun trail p => FailsAs (along trail [p]) (s.countPiece trail p))
    (P := fun trail pieces => FailsAs (along trail pieces) (s.countPieces trail pieces))
    ?word ?group ?reference ?nil ?cons trail).2 pieces
  case word =>
    intro trail text
    simp [countPiece_word]
  case group =>
    intro trail pieces value m ih
    cases excluded : (Piece.group pieces value m).isExcluded with
    | true => simp [countPiece_excluded excluded]
    | false =>
      rw [countPiece_group excluded]
      exact ih.mono fun e => .inGroup excluded
  case reference =>
    intro trail kind name m ih
    cases excluded : (Piece.reference kind name m).isExcluded with
    | true => simp [countPiece_excluded excluded]
    | false =>
      cases resolves : s.resolve ⟨kind, name, m.variation⟩ with
      | error e =>
        rw [countPiece_unresolved excluded resolves]
        exact failsAs_error.mpr (.reference excluded resolves)
      | ok found =>
        obtain ⟨d, rules⟩ := found
        cases steps : trail.step? ⟨kind, name, m.variation⟩ with
        | none => simp [countPiece_cycle excluded resolves steps]
        | some longer =>
          rw [countPiece_reference excluded resolves steps]
          apply countRules_fails
          intro r known
          have inside := ih d rules longer resolves steps r known
          exact inside.mono fun e => .inRule excluded resolves known steps
  case nil =>
    intro trail
    simp [countPieces_nil]
  case cons =>
    intro trail p rest one others
    rw [countPieces_cons]
    have first := one.mono fun e fails => fails.before rest
    exact first.both (others.mono fun e fails => fails.after p) _

/-! ## Listing -/

theorem listRules_fails {P : Error → Prop} {kind : Kind} {name : String}
    (each : ∀ r ∈ rules, FailsAs P (s.listPieces trail r.pieces)) :
    FailsAs P (s.listRules trail kind name rules) := by
  induction rules with
  | nil => simp [listRules_nil]
  | cons r rest ih =>
    rw [listRules_cons]
    have others := ih fun r hr => each r (List.mem_cons_of_mem _ hr)
    exact (each r List.mem_cons_self).both others _

theorem listPieces_halts (s : Store) (trail : Trail) (pieces : List Piece) :
    FailsAs (s.FailsAlong (fun _ => True) s.Halts trail pieces) (s.listPieces trail pieces) := by
  let along := s.FailsAlong (fun _ => True) s.Halts
  refine (s.walk_induction
    (Q := fun trail p => FailsAs (along trail [p]) (s.listPiece trail p))
    (P := fun trail pieces => FailsAs (along trail pieces) (s.listPieces trail pieces))
    ?word ?group ?reference ?nil ?cons trail).2 pieces
  case word =>
    intro trail text
    simp [listPiece_word]
  case group =>
    intro trail pieces value m ih
    cases excluded : (Piece.group pieces value m).isExcluded with
    | true => simp [listPiece_excluded excluded]
    | false =>
      rw [listPiece_group excluded]
      exact ih.mono fun e => .inGroup trivial
  case reference =>
    intro trail kind name m ih
    cases excluded : (Piece.reference kind name m).isExcluded with
    | true => simp [listPiece_excluded excluded]
    | false =>
      cases resolves : s.resolve ⟨kind, name, m.variation⟩ with
      | error e =>
        rw [listPiece_unresolved excluded resolves]
        exact failsAs_error.mpr (.reference trivial (.unresolved resolves))
      | ok found =>
        obtain ⟨d, rules⟩ := found
        cases steps : trail.step? ⟨kind, name, m.variation⟩ with
        | none =>
          rw [listPiece_cycle excluded resolves steps]
          exact failsAs_error.mpr (.reference trivial (.cycle resolves steps))
        | some longer =>
          rw [listPiece_reference excluded resolves steps]
          apply listRules_fails
          intro r known
          have inside := ih d rules longer resolves steps r known
          exact inside.mono fun e => .inRule trivial resolves known steps
  case nil =>
    intro trail
    simp [listPieces_nil]
  case cons =>
    intro trail p rest one others
    rw [listPieces_cons]
    have first := one.mono fun e fails => fails.before rest
    exact first.both (others.mono fun e fails => fails.after p) _

end
end Phrasebook.Store
