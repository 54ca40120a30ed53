import Phrasebook.Proofs.Context
import Phrasebook.Proofs.Run

/-!
# Calls

* Counting and listing come back to the trail they started from, whether they succeed or not.
* Expanding on a context answers as expanding with a trail of its own, and keeps the context.
* So do any number of calls, one after the other.
-/
namespace Phrasebook.Store

open Steps Context

variable {s : Store} {trail : Trail}

/-- A walk that may step onto a target has the depth for it, and the rest is enough from there. -/
theorem room_left {depth : Nat} {longer : Trail} {t : Target} {d : Definition} {rules : List Rule}
    (enough : s.room trail ≤ depth) (resolves : s.resolve t = .ok (d, rules))
    (steps : trail.step? t = some longer) : ∃ left, depth = left + 1 ∧ s.room longer ≤ left := by
  have less := room_step (mem_targets_of_resolve resolves) steps
  exact ⟨depth - 1, by omega, by omega⟩

theorem room_le {longer : Trail} {t : Target} (steps : trail.step? t = some longer) :
    s.room longer ≤ s.room trail := by
  rw [Trail.eq_cons_of_step? steps]
  unfold room unvisited
  induction s.targets with
  | nil => exact Nat.le_refl _
  | cons other rest ih => grind

/-! ## Counting and listing -/

theorem on_countRulesAt {depth : Nat} {rules : List Rule}
    (bodies : ∀ r ∈ rules, (s.countPiecesAt depth r.pieces).on trail =
      some (s.countPieces trail r.pieces, trail)) :
    (s.countRulesAt depth rules).on trail = some (s.countRules trail rules, trail) := by
  induction rules with
  | nil =>
    rw [countRulesAt, countRules_nil]
    rfl
  | cons r rest ih =>
    rw [countRulesAt, countRules_cons]
    have others := ih fun r hr => bodies r (List.mem_cons_of_mem _ hr)
    exact on_bind_still (bodies r List.mem_cons_self) fun _ => on_bind_still others fun _ => rfl

/-- Counting on a trail that it changes counts the same, and comes back to where it was. -/
theorem on_countPiecesAt (s : Store) (trail : Trail) :
    (∀ p depth, s.room trail ≤ depth →
      (s.countPieceAt depth p).on trail = some (s.countPiece trail p, trail)) ∧
    ∀ ps depth, s.room trail ≤ depth →
      (s.countPiecesAt depth ps).on trail = some (s.countPieces trail ps, trail) := by
  apply s.walk_induction
    (Q := fun trail p => ∀ depth, s.room trail ≤ depth →
      (s.countPieceAt depth p).on trail = some (s.countPiece trail p, trail))
    (P := fun trail ps => ∀ depth, s.room trail ≤ depth →
      (s.countPiecesAt depth ps).on trail = some (s.countPieces trail ps, trail))
  case word =>
    intro trail text depth _
    rw [countPieceAt, countPiece_word]
    rfl
  case group =>
    intro trail pieces value m body depth enough
    rw [countPieceAt]
    cases excluded : (Piece.group pieces value m).isExcluded with
    | true =>
      rw [countPiece_excluded excluded]
      rfl
    | false =>
      rw [countPiece_group excluded]
      exact body depth enough
  case reference =>
    intro trail kind name m bodies depth enough
    rw [countPieceAt]
    cases excluded : (Piece.reference kind name m).isExcluded with
    | true =>
      rw [countPiece_excluded excluded]
      rfl
    | false =>
      cases resolves : s.resolve ⟨kind, name, m.variation⟩ with
      | error e =>
        rw [countPiece_unresolved excluded resolves]
        exact on_bind_error (on_of _)
      | ok found =>
        obtain ⟨d, rules⟩ := found
        refine (on_bind_ok (on_of _)).trans ?_
        refine (on_bind_ok on_get).trans ?_
        cases steps : trail.step? ⟨kind, name, m.variation⟩ with
        | none =>
          rw [countPiece_cycle excluded resolves steps]
          rfl
        | some longer =>
          rw [countPiece_reference excluded resolves steps]
          obtain ⟨left, rfl, further⟩ := room_left enough resolves steps
          exact on_there_and_back steps (on_countRulesAt fun r hr =>
            bodies d rules longer resolves steps r hr left further)
  case nil =>
    intro trail depth _
    rw [countPiecesAt, countPieces_nil]
    rfl
  case cons =>
    intro trail p rest first others depth enough
    rw [countPiecesAt, countPieces_cons]
    exact on_bind_still (first depth enough) fun _ =>
      on_bind_still (others depth enough) fun _ => rfl

theorem on_countRuleOn (s : Store) (r : Rule) (trail : Trail) :
    (s.countRuleOn r).on trail = some (s.countRule trail r, trail) :=
  (on_bind_ok on_get).trans ((s.on_countPiecesAt trail).2 r.pieces _ (Nat.le_refl _))

theorem on_listRulesAt {depth : Nat} {kind : Kind} {name : String} {rules : List Rule}
    (bodies : ∀ r ∈ rules, (s.listPiecesAt depth r.pieces).on trail =
      some (s.listPieces trail r.pieces, trail)) :
    (s.listRulesAt depth kind name rules).on trail =
      some (s.listRules trail kind name rules, trail) := by
  induction rules with
  | nil =>
    rw [listRulesAt, listRules_nil]
    rfl
  | cons r rest ih =>
    rw [listRulesAt, listRules_cons]
    have others := ih fun r hr => bodies r (List.mem_cons_of_mem _ hr)
    exact on_bind_still (bodies r List.mem_cons_self) fun _ => on_bind_still others fun _ => rfl

/-- So does listing. -/
theorem on_listPiecesAt (s : Store) (trail : Trail) :
    (∀ p depth, s.room trail ≤ depth →
      (s.listPieceAt depth p).on trail = some (s.listPiece trail p, trail)) ∧
    ∀ ps depth, s.room trail ≤ depth →
      (s.listPiecesAt depth ps).on trail = some (s.listPieces trail ps, trail) := by
  apply s.walk_induction
    (Q := fun trail p => ∀ depth, s.room trail ≤ depth →
      (s.listPieceAt depth p).on trail = some (s.listPiece trail p, trail))
    (P := fun trail ps => ∀ depth, s.room trail ≤ depth →
      (s.listPiecesAt depth ps).on trail = some (s.listPieces trail ps, trail))
  case word =>
    intro trail text depth _
    rw [listPieceAt, listPiece_word]
    rfl
  case group =>
    intro trail pieces value m body depth enough
    rw [listPieceAt]
    cases excluded : (Piece.group pieces value m).isExcluded with
    | true =>
      rw [listPiece_excluded excluded]
      rfl
    | false =>
      rw [listPiece_group excluded]
      exact body depth enough
  case reference =>
    intro trail kind name m bodies depth enough
    rw [listPieceAt]
    cases excluded : (Piece.reference kind name m).isExcluded with
    | true =>
      rw [listPiece_excluded excluded]
      rfl
    | false =>
      cases resolves : s.resolve ⟨kind, name, m.variation⟩ with
      | error e =>
        rw [listPiece_unresolved excluded resolves]
        exact on_bind_error (on_of _)
      | ok found =>
        obtain ⟨d, rules⟩ := found
        refine (on_bind_ok (on_of _)).trans ?_
        refine (on_bind_ok on_get).trans ?_
        cases steps : trail.step? ⟨kind, name, m.variation⟩ with
        | none =>
          rw [listPiece_cycle excluded resolves steps, Trail.step, steps]
          exact on_bind_error (on_of _)
        | some longer =>
          rw [listPiece_reference excluded resolves steps, Trail.step_eq_ok.mpr steps]
          refine (on_bind_ok (on_of _)).trans ?_
          obtain ⟨left, rfl, further⟩ := room_left enough resolves steps
          exact on_there_and_back steps (on_listRulesAt fun r hr =>
            bodies d rules longer resolves steps r hr left further)
  case nil =>
    intro trail depth _
    rw [listPiecesAt, listPieces_nil]
    rfl
  case cons =>
    intro trail p rest first others depth enough
    rw [listPiecesAt, listPieces_cons]
    exact on_bind_still (first depth enough) fun _ =>
      on_bind_still (others depth enough) fun _ => rfl

theorem on_listRuleOn (s : Store) (r : Rule) (trail : Trail) :
    (s.listRuleOn r).on trail = some (s.listRule trail r, trail) :=
  (on_bind_ok on_get).trans ((s.on_listPiecesAt trail).2 r.pieces _ (Nat.le_refl _))

/-! ## Expanding -/

theorem expandWithin_of_step? {t : Target} {r : Rule} {trail longer : Trail} {pass : Pass}
    (steps : trail.step? t = some longer) :
    s.expandWithin trail t r pass = s.expandPieces longer r.pieces pass := by
  rw [expandWithin, Trail.step_eq_ok.mpr steps]
  rfl

theorem expandWithin_cycle {t : Target} {r : Rule} {trail : Trail} {pass : Pass}
    (steps : trail.step? t = none) :
    s.expandWithin trail t r pass = (.error (.cycle (trail.cycle t)), pass) := by
  rw [expandWithin, Trail.step, steps]

theorem on_enter {t : Target} {longer : Trail} {c : Context}
    (steps : c.trail.step? t = some longer) :
    (enter t).on c = some (.ok ⟨⟩, { c with trail := longer }) := by
  refine (on_bind_ok on_get).trans ?_
  rw [Trail.step_eq_ok.mpr steps]
  exact (on_bind_ok (on_of _)).trans rfl

theorem on_enter_cycle {t : Target} {c : Context} (steps : c.trail.step? t = none) :
    (enter t).on c = some (.error (.cycle (c.trail.cycle t)), c) := by
  refine (on_bind_ok on_get).trans ?_
  rw [Trail.step, steps]
  exact on_bind_error (on_of _)

/-- A rule as the body of a target: what steps onto the target steps off it, failed or not. -/
theorem returns_within {depth : Nat} {t : Target} {r : Rule} {c : Context}
    (body : ∀ longer, c.trail.step? t = some longer → ∃ left, depth = left + 1 ∧
      ∀ there : Context, there.trail = longer → there.Returns
        (s.expandPieces longer r.pieces there.pass) ((s.expandPiecesAt left r.pieces).on there)) :
    c.Returns (s.expandWithin c.trail t r c.pass) ((s.expandWithinAt depth t r).on c) := by
  rw [expandWithinAt.eq_def]
  cases steps : c.trail.step? t with
  | none =>
    rw [expandWithin_cycle steps, on_bind_error (on_enter_cycle steps)]
    exact returns_here rfl
  | some longer =>
    rw [expandWithin_of_step? steps, on_bind_ok (on_enter steps)]
    obtain ⟨left, rfl, inside⟩ := body longer steps
    obtain ⟨later, added, same, pass, keeps⟩ := inside { c with trail := longer } rfl
    exact ⟨later.leave, added, on_andThen leave same, pass, keeps.leave steps⟩

/-- A reference that is taken and resolves goes on with the rule that is drawn for it. -/
theorem returns_drawn {depth : Nat} {kind : Kind} {name : String} {m : Modifiers} {c : Context}
    {next chosen : Pass} {d : Definition} {rules : List Rule} {rule : Rule}
    {expected : Outcome Fragment × Pass} (taken : c.pass.includes m = (true, next))
    (resolves : s.resolve ⟨kind, name, m.variation⟩ = .ok (d, rules))
    (draws : next.choose rules = (some rule, chosen))
    (others : ∀ there : Context, there.pass = chosen → there.trail = c.trail →
      there.Returns expected (Steps.on (do
        let f ← s.expandWithinAt depth ⟨kind, name, m.variation⟩ rule
        let casing ← modifyGet (casing (m.casing || d.casing))
        return f.shown kind name rule.value casing) there)) :
    c.Returns expected ((s.expandPieceAt depth (.reference kind name m)).on c) := by
  rw [expandPieceAt]
  refine returns_includes taken fun there pass along => ?_
  rw [if_pos rfl]
  refine returns_of resolves (returns_choose (pass ▸ draws) fun later pass' along' => ?_)
  exact others later pass' (along'.trans along)

/-- What a run on a context comes to is what the run with these choices comes to. The trail of the
induction is the one that the context has at that moment. -/
theorem returns_expandPiecesAt (s : Store) (trail : Trail) :
    (∀ p depth, s.room trail ≤ depth → ∀ c : Context, c.trail = trail →
      c.Returns (s.expandPiece trail p c.pass) ((s.expandPieceAt depth p).on c)) ∧
    ∀ ps depth, s.room trail ≤ depth → ∀ c : Context, c.trail = trail →
      c.Returns (s.expandPieces trail ps c.pass) ((s.expandPiecesAt depth ps).on c) := by
  apply s.walk_induction
    (Q := fun trail p => ∀ depth, s.room trail ≤ depth → ∀ c : Context, c.trail = trail →
      c.Returns (s.expandPiece trail p c.pass) ((s.expandPieceAt depth p).on c))
    (P := fun trail ps => ∀ depth, s.room trail ≤ depth → ∀ c : Context, c.trail = trail →
      c.Returns (s.expandPieces trail ps c.pass) ((s.expandPiecesAt depth ps).on c))
  case word =>
    intro trail text depth _ c _
    rw [expandPieceAt, expandPiece_word]
    exact returns_here rfl
  case group =>
    intro trail pieces value m body depth enough c here
    rw [expandPieceAt]
    have expanded := s.expandPiece_expanded trail (.group pieces value m) c.pass
    generalize s.expandPiece trail (.group pieces value m) c.pass = expected at expanded
    cases expanded with
    | groupLeft left =>
      exact returns_includes left fun there pass _ => returns_here pass
    | groupFailed taken inside =>
      refine returns_includes taken fun there pass along => ?_
      have h := body depth enough there (along.trans here)
      rw [pass, inside] at h
      exact h.bind_error
    | group taken inside =>
      refine returns_includes taken fun there pass along => ?_
      have h := body depth enough there (along.trans here)
      rw [pass, inside] at h
      refine h.bind_ok fun last pass _ => ?_
      rw [← pass]
      exact returns_casing fun later pass _ => returns_here pass
  case reference =>
    intro trail kind name m bodies depth enough c here
    have within : ∀ {d rules next rule chosen}, s.resolve ⟨kind, name, m.variation⟩ =
        .ok (d, rules) → Pass.choose rules next = (some rule, chosen) →
        ∀ there : Context, there.pass = chosen → there.trail = c.trail →
        there.Returns (s.expandWithin trail ⟨kind, name, m.variation⟩ rule chosen)
          ((s.expandWithinAt depth ⟨kind, name, m.variation⟩ rule).on there) := by
      intro d rules next rule chosen resolves draws there pass along
      obtain rfl : there.trail = trail := along.trans here
      rw [← pass]
      refine returns_within fun longer steps => ?_
      obtain ⟨left, rfl, further⟩ := room_left enough resolves steps
      exact ⟨left, rfl, bodies d rules longer resolves steps rule (mem_of_choose draws) left further⟩
    have expanded := s.expandPiece_expanded trail (.reference kind name m) c.pass
    generalize s.expandPiece trail (.reference kind name m) c.pass = expected at expanded
    cases expanded with
    | referenceLeft left =>
      rw [expandPieceAt]
      exact returns_includes left fun there pass _ => returns_here pass
    | unresolved taken resolves =>
      rw [expandPieceAt, resolves]
      exact returns_includes taken fun there pass _ => returns_here pass
    | ruleless taken resolves draws =>
      rw [expandPieceAt]
      refine returns_includes taken fun there pass _ => ?_
      rw [if_pos rfl]
      refine returns_of resolves (returns_choose (pass ▸ draws) fun chosen pass _ => ?_)
      exact returns_here pass
    | cycle taken resolves draws steps =>
      refine returns_drawn taken resolves draws fun there pass along => ?_
      have h := within resolves draws there pass along
      rw [expandWithin_cycle steps] at h
      exact h.bind_error
    | referenceFailed taken resolves draws steps inside =>
      refine returns_drawn taken resolves draws fun there pass along => ?_
      have h := within resolves draws there pass along
      rw [expandWithin_of_step? steps, inside] at h
      exact h.bind_error
    | reference taken resolves draws steps inside =>
      refine returns_drawn taken resolves draws fun there pass along => ?_
      have h := within resolves draws there pass along
      rw [expandWithin_of_step? steps, inside] at h
      refine h.bind_ok fun last pass _ => ?_
      rw [← pass]
      exact returns_casing fun later pass _ => returns_here pass
  case nil =>
    intro trail depth _ c _
    rw [expandPiecesAt, expandPieces_nil]
    exact returns_here rfl
  case cons =>
    intro trail p rest first others depth enough c here
    rw [expandPiecesAt]
    have expanded := s.expandPieces_expanded trail p rest c.pass
    generalize s.expandPieces trail (p :: rest) c.pass = expected at expanded
    have h := first depth enough c here
    cases expanded with
    | failed fails =>
      rw [fails] at h
      exact h.bind_error
    | failedLater one fails =>
      rw [one] at h
      refine h.bind_ok fun there pass along => ?_
      have h' := others depth enough there (along.trans here)
      rw [pass, fails] at h'
      exact h'.bind_error
    | done one all =>
      rw [one] at h
      refine h.bind_ok fun there pass along => ?_
      have h' := others depth enough there (along.trans here)
      rw [pass, all] at h'
      exact h'.bind_ok fun later pass _ => returns_here pass

theorem returns_expandPieceIn (s : Store) (p : Piece) (c : Context) :
    c.Returns (s.expandPiece c.trail p c.pass) ((s.expandPieceIn p).on c) := by
  rw [expandPieceIn, on_bind_ok on_get]
  exact (s.returns_expandPiecesAt c.trail).1 p _ (Nat.le_refl _) c rfl

theorem returns_expandRuleIn (s : Store) (r : Rule) (c : Context) :
    c.Returns (s.expandRule c.trail r c.pass) ((s.expandRuleIn r).on c) := by
  rw [expandRuleIn, on_bind_ok on_get]
  exact (s.returns_expandPiecesAt c.trail).2 r.pieces _ (Nat.le_refl _) c rfl

theorem returns_expandWithinIn (s : Store) (t : Target) (r : Rule) (c : Context) :
    c.Returns (s.expandWithin c.trail t r c.pass) ((s.expandWithinIn t r).on c) := by
  rw [expandWithinIn, on_bind_ok on_get]
  refine returns_within fun longer steps => ⟨_, rfl, ?_⟩
  exact (s.returns_expandPiecesAt longer).2 r.pieces _ (room_le steps)

/-! ## Calls -/

theorem answer_keeps (s : Store) (call : Call) (c : Context) :
    ∃ last added, s.answer c call = some last ∧ c.Keeps added last := by
  cases call with
  | piece p =>
    obtain ⟨last, added, ran, -, keeps⟩ := s.returns_expandPieceIn p c
    exact ⟨last, added, congrArg (Option.map Prod.snd) ran, keeps⟩
  | rule r =>
    obtain ⟨last, added, ran, -, keeps⟩ := s.returns_expandRuleIn r c
    exact ⟨last, added, congrArg (Option.map Prod.snd) ran, keeps⟩
  | within t r =>
    obtain ⟨last, added, ran, -, keeps⟩ := s.returns_expandWithinIn t r c
    exact ⟨last, added, congrArg (Option.map Prod.snd) ran, keeps⟩
  | decide group percent =>
    obtain ⟨d, keeps⟩ := c.keeps_decide group percent
    exact ⟨_, [d], rfl, keeps⟩

theorem answerAll_keeps (s : Store) (calls : List Call) (c : Context) :
    ∃ last added, s.answerAll c calls = some last ∧ c.Keeps added last := by
  induction calls generalizing c with
  | nil => exact ⟨c, [], rfl, .refl c⟩
  | cons call rest ih =>
    obtain ⟨there, added, answered, first⟩ := s.answer_keeps call c
    obtain ⟨last, more, others, second⟩ := ih there
    refine ⟨last, added ++ more, ?_, first.trans second⟩
    rw [answerAll, List.foldlM_cons, answered]
    exact others

/-- **Calls leave nothing behind but decisions.** They answer as they would with a trail of their
own. Each leaves the trail as it was, whether it failed or not. Over all calls of a context a named
group is decided once and for all: later decisions about it have the same value and take no
words. -/
theorem calls_keep_context (s : Store) (c : Context) :
    (∀ p, c.Returns (s.expandPiece c.trail p c.pass) ((s.expandPieceIn p).on c)) ∧
      (∀ r, c.Returns (s.expandRule c.trail r c.pass) ((s.expandRuleIn r).on c)) ∧
      (∀ t r, c.Returns (s.expandWithin c.trail t r c.pass) ((s.expandWithinIn t r).on c)) ∧
      (∀ r trail, (s.countRuleOn r).on trail = some (s.countRule trail r, trail)) ∧
      (∀ r trail, (s.listRuleOn r).on trail = some (s.listRule trail r, trail)) ∧
      ∀ calls, ∃ last added, s.answerAll c calls = some last ∧ c.Keeps added last :=
  ⟨fun p => s.returns_expandPieceIn p c, fun r => s.returns_expandRuleIn r c,
    fun t r => s.returns_expandWithinIn t r c, s.on_countRuleOn, s.on_listRuleOn,
    fun calls => s.answerAll_keeps calls c⟩

end Phrasebook.Store
