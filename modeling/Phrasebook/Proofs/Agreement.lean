import Phrasebook.Proofs.Calls
import Phrasebook.Proofs.Dangling

/-!
# Stores that agree on what is needed

What a rule gives depends on the definitions that its references lead to, and on no other.

* `Store.Involves`: the names that pieces lead to, through all rules of the definitions in between;
* `Store.Agree`: two stores have the same definitions under these names, or none. It does not matter
  in which of them the references are followed (`Agree.symm`);
* `expandPiecesAt_agree`, `countPieces_agree`, `listPieces_agree`: then they expand, count and list
  alike, each by its walk;
* `Generator.blocks_agree`: so blocks of examples are the same, whatever the settings are;
* `agreement_suffices`: rules and intents in stores that agree on what they lead to.
-/

namespace Phrasebook

namespace Store

/-- References lead from the pieces to the name: one of the pieces has it, or any rule of the
definition that one of the pieces refers to. -/
inductive Involves (s : Store) : List Piece → Kind → String → Prop
  | here {pieces t} (refers : Piece.Refers (fun _ => True) pieces t) :
      Involves s pieces t.kind t.name
  | further {pieces t d r kind name} (refers : Piece.Refers (fun _ => True) pieces t)
      (found : s.find? t.kind t.name = some d) (rule : r ∈ d.allRules)
      (inside : Involves s r.pieces kind name) : Involves s pieces kind name

/-- What the pieces lead to is the same in both stores. -/
def Agree (s other : Store) (pieces : List Piece) : Prop :=
  ∀ kind name, s.Involves pieces kind name → s.find? kind name = other.find? kind name

variable {s other : Store} {trail : Trail} {p : Piece} {pieces rest : List Piece}
  {rules : List Rule} {value : Option String} {m : Modifiers} {kind : Kind} {name : String}

/-! ## Agreement, from pieces to what is in them -/

theorem Involves.mono {wider : List Piece} (h : s.Involves pieces kind name)
    (all : ∀ t, Piece.Refers (fun _ => True) pieces t → Piece.Refers (fun _ => True) wider t) :
    s.Involves wider kind name := by
  cases h with
  | here refers => exact .here (all _ refers)
  | further refers found rule inside => exact .further (all _ refers) found rule inside

theorem Agree.head (h : s.Agree other (p :: rest)) : s.Agree other [p] := by
  intro kind name involved
  exact h kind name (involved.mono fun _ refers => Piece.refers_cons.mpr (.inl refers))

theorem Agree.tail (h : s.Agree other (p :: rest)) : s.Agree other rest := by
  intro kind name involved
  exact h kind name (involved.mono fun _ refers => .later refers)

theorem Agree.group (h : s.Agree other [.group pieces value m]) : s.Agree other pieces := by
  intro kind name involved
  exact h kind name (involved.mono fun _ refers => .inGroup trivial refers)

theorem Agree.found {t : Target} (h : s.Agree other pieces)
    (refers : Piece.Refers (fun _ => True) pieces t) :
    s.find? t.kind t.name = other.find? t.kind t.name :=
  h _ _ (.here refers)

theorem Agree.rule {t : Target} {d : Definition} {r : Rule} (h : s.Agree other pieces)
    (refers : Piece.Refers (fun _ => True) pieces t) (found : s.find? t.kind t.name = some d)
    (hr : r ∈ d.allRules) : s.Agree other r.pieces := by
  intro kind name involved
  exact h kind name (.further refers found hr involved)

theorem Agree.resolve (h : s.Agree other [.reference kind name m]) :
    other.resolve ⟨kind, name, m.variation⟩ = s.resolve ⟨kind, name, m.variation⟩ := by
  have found := h.found (.reference trivial)
  simp only [Store.resolve, get, found]

theorem Agree.inRules (h : s.Agree other [.reference kind name m]) {d : Definition}
    (resolves : s.resolve ⟨kind, name, m.variation⟩ = .ok (d, rules)) :
    ∀ r ∈ rules, s.Agree other r.pieces := by
  intro r hr
  obtain ⟨found, meant⟩ := resolve_eq_ok.mp resolves
  exact h.rule (.reference trivial) found (mem_allRules_of_rulesOf meant hr)

/-- What is involved in the other store is involved in this one: up to there both have the same
definitions. -/
theorem Agree.involves (h : s.Agree other pieces) (involved : other.Involves pieces kind name) :
    s.Involves pieces kind name := by
  induction involved with
  | here refers => exact .here refers
  | further refers found rule _ ih =>
    have here := (h.found refers).trans found
    exact .further refers here rule (ih (h.rule refers here rule))

theorem Agree.symm (h : s.Agree other pieces) : other.Agree s pieces := by
  intro kind name involved
  exact (h kind name (h.involves involved)).symm

/-- Nothing else is involved than names that lead only to each other. -/
theorem Involves.inside (scope : Kind → String → Prop) (involved : s.Involves pieces kind name)
    (start : ∀ t ∈ Piece.targetsOf pieces, scope t.kind t.name)
    (closed : ∀ kind name d, scope kind name → s.find? kind name = some d →
      ∀ r ∈ d.allRules, ∀ t ∈ r.targets, scope t.kind t.name) : scope kind name := by
  induction involved with
  | here refers => exact start _ (Piece.mem_targetsOf _ |>.mpr refers)
  | further refers found rule _ ih =>
    have there := start _ (Piece.mem_targetsOf _ |>.mpr refers)
    exact ih (closed _ _ _ there found _ rule)

/-- What is put under a name that is not involved makes no difference. -/
theorem agree_put (apart : ¬ s.Involves pieces kind name) (d : Definition) :
    s.Agree (s.put kind name d) pieces := by
  intro kind' name' involved
  rw [find?_put, if_neg]
  rintro ⟨rfl, rfl⟩
  exact apart involved

/-! ## Walks in both stores -/

open Steps

/-- A rule as the body of a target goes alike if its pieces do, one step further. -/
theorem expandWithinAt_alike {depth depth' : Nat} {t : Target} {r : Rule} {c : Context}
    (body : ∀ longer, c.trail.step? t = some longer → ∃ left left',
      depth = left + 1 ∧ depth' = left' + 1 ∧ ∀ there : Context, there.trail = longer →
        (other.expandPiecesAt left' r.pieces).on there =
          (s.expandPiecesAt left r.pieces).on there) :
    (other.expandWithinAt depth' t r).on c = (s.expandWithinAt depth t r).on c := by
  rw [expandWithinAt.eq_def, expandWithinAt.eq_def]
  cases steps : c.trail.step? t with
  | none => rw [on_bind_error (on_enter_cycle steps), on_bind_error (on_enter_cycle steps)]
  | some longer =>
    rw [on_bind_ok (on_enter steps), on_bind_ok (on_enter steps)]
    obtain ⟨left, left', rfl, rfl, inside⟩ := body longer steps
    exact congrArg (Option.bind · fun outcome => some (outcome.1, outcome.2.leave))
      (inside { c with trail := longer } rfl)

theorem trail_of_includes {m : Modifiers} {c there : Context} {b : Bool}
    (ran : (modifyGet (Context.includes m) : Steps Context Bool).on c = some (.ok b, there)) :
    there.trail = c.trail := by
  obtain ⟨later, added, decided, -, keeps⟩ := c.includes_eq rfl
  rw [on_modifyGet, decided] at ran
  cases ran
  exact keeps.trail

theorem trail_of_piece {depth : Nat} {f : Fragment} {c there : Context}
    (enough : s.room c.trail ≤ depth)
    (ran : (s.expandPieceAt depth p).on c = some (.ok f, there)) : there.trail = c.trail := by
  obtain ⟨later, added, same, -, keeps⟩ :=
    (s.returns_expandPiecesAt c.trail).1 p depth enough c rfl
  obtain ⟨-, rfl⟩ := Prod.mk.inj (Option.some.inj (ran.symm.trans same))
  exact keeps.trail

/-- With room for it in both stores, a context goes through the same in either. -/
theorem expandPiecesAt_agree (s other : Store) (trail : Trail) :
    (∀ p depth depth', s.room trail ≤ depth → other.room trail ≤ depth' → s.Agree other [p] →
      ∀ c : Context, c.trail = trail →
        (other.expandPieceAt depth' p).on c = (s.expandPieceAt depth p).on c) ∧
    ∀ ps depth depth', s.room trail ≤ depth → other.room trail ≤ depth' → s.Agree other ps →
      ∀ c : Context, c.trail = trail →
        (other.expandPiecesAt depth' ps).on c = (s.expandPiecesAt depth ps).on c := by
  apply s.walk_induction
    (Q := fun trail p => ∀ depth depth', s.room trail ≤ depth → other.room trail ≤ depth' →
      s.Agree other [p] → ∀ c : Context, c.trail = trail →
        (other.expandPieceAt depth' p).on c = (s.expandPieceAt depth p).on c)
    (P := fun trail ps => ∀ depth depth', s.room trail ≤ depth → other.room trail ≤ depth' →
      s.Agree other ps → ∀ c : Context, c.trail = trail →
        (other.expandPiecesAt depth' ps).on c = (s.expandPiecesAt depth ps).on c)
  case word =>
    intro trail text depth depth' _ _ _ c _
    rw [expandPieceAt, expandPieceAt]
  case group =>
    intro trail pieces value m body depth depth' enough enough' agree c here
    rw [expandPieceAt, expandPieceAt]
    apply on_bind_alike rfl
    intro b there decided
    have along := (trail_of_includes decided).trans here
    cases b with
    | false => rw [if_neg Bool.false_ne_true, if_neg Bool.false_ne_true]
    | true =>
      rw [if_pos rfl, if_pos rfl]
      have inside := body depth depth' enough enough' agree.group there along
      exact on_bind_alike inside fun _ _ _ => rfl
  case reference =>
    intro trail kind name m bodies depth depth' enough enough' agree c here
    have same := agree.resolve
    rw [expandPieceAt, expandPieceAt, same]
    apply on_bind_alike rfl
    intro b there decided
    have along := (trail_of_includes decided).trans here
    cases b with
    | false => rw [if_neg Bool.false_ne_true, if_neg Bool.false_ne_true]
    | true =>
      rw [if_pos rfl, if_pos rfl]
      apply on_bind_alike rfl
      rintro ⟨d, rules⟩ _ ran
      obtain ⟨resolves, rfl⟩ := Prod.mk.inj (Option.some.inj ran)
      apply on_bind_alike rfl
      intro drawn _ ran
      obtain ⟨draws, rfl⟩ := Prod.mk.inj (Option.some.inj ran)
      cases drawn with
      | none => dsimp only
      | some rule =>
        dsimp only
        refine on_bind_alike (expandWithinAt_alike fun longer steps => ?_) fun _ _ _ => rfl
        replace steps : trail.step? ⟨kind, name, m.variation⟩ = some longer := along ▸ steps
        have known := mem_of_choose (Prod.ext (Except.ok.inj draws) rfl)
        obtain ⟨left, rfl, further⟩ := room_left enough resolves steps
        obtain ⟨left', rfl, further'⟩ := room_left enough' (same.trans resolves) steps
        exact ⟨left, left', rfl, rfl, bodies d rules longer resolves steps rule known left left'
          further further' (agree.inRules resolves rule known)⟩
  case nil =>
    intro trail depth depth' _ _ _ c _
    rw [expandPiecesAt, expandPiecesAt]
  case cons =>
    intro trail p rest first others depth depth' enough enough' agree c here
    rw [expandPiecesAt, expandPiecesAt]
    apply on_bind_alike (first depth depth' enough enough' agree.head c here)
    intro f there ran
    have along := (trail_of_piece (here ▸ enough) ran).trans here
    have after := others depth depth' enough enough' agree.tail there along
    exact on_bind_alike after fun _ _ _ => rfl

theorem expandRuleIn_agree {r : Rule} (agree : s.Agree other r.pieces) (c : Context) :
    (other.expandRuleIn r).on c = (s.expandRuleIn r).on c := by
  rw [expandRuleIn, expandRuleIn, on_bind_ok on_get, on_bind_ok on_get]
  exact (s.expandPiecesAt_agree other c.trail).2 _ _ _ (Nat.le_refl _) (Nat.le_refl _) agree c rfl

/-- So does a pass: it is what becomes of a context. -/
theorem expandRule_agree {r : Rule} (agree : s.Agree other r.pieces) (trail : Trail) (pass : Pass) :
    other.expandRule trail r pass = s.expandRule trail r pass := by
  obtain ⟨later, -, here, same, -⟩ := s.returns_expandRuleIn r ⟨pass, trail, []⟩
  obtain ⟨later', -, there, same', -⟩ := other.returns_expandRuleIn r ⟨pass, trail, []⟩
  have runs := there.symm.trans ((expandRuleIn_agree agree _).trans here)
  obtain ⟨outcome, rfl⟩ := Prod.mk.inj (Option.some.inj runs)
  exact Prod.ext outcome (same'.symm.trans same)

theorem countRules_agree
    (each : ∀ r ∈ rules, other.countPieces trail r.pieces = s.countPieces trail r.pieces) :
    other.countRules trail rules = s.countRules trail rules := by
  induction rules with
  | nil => rw [countRules_nil, countRules_nil]
  | cons r rest ih =>
    rw [countRules_cons, countRules_cons, each r List.mem_cons_self,
      ih fun r hr => each r (List.mem_cons_of_mem _ hr)]

theorem countPieces_agree (s other : Store) (trail : Trail) :
    (∀ p, s.Agree other [p] → other.countPiece trail p = s.countPiece trail p) ∧
      ∀ pieces, s.Agree other pieces →
        other.countPieces trail pieces = s.countPieces trail pieces := by
  apply s.walk_induction
    (Q := fun trail p => s.Agree other [p] → other.countPiece trail p = s.countPiece trail p)
    (P := fun trail pieces => s.Agree other pieces →
      other.countPieces trail pieces = s.countPieces trail pieces)
  case word =>
    intro trail text _
    rw [countPiece_word, countPiece_word]
  case group =>
    intro trail pieces value m body agree
    cases excluded : (Piece.group pieces value m).isExcluded with
    | true => rw [countPiece_excluded excluded, countPiece_excluded excluded]
    | false =>
      rw [countPiece_group excluded, countPiece_group excluded]
      exact body agree.group
  case reference =>
    intro trail kind name m bodies agree
    cases excluded : (Piece.reference kind name m).isExcluded with
    | true => rw [countPiece_excluded excluded, countPiece_excluded excluded]
    | false =>
      have same := agree.resolve
      cases resolves : s.resolve ⟨kind, name, m.variation⟩ with
      | error e =>
        rw [countPiece_unresolved excluded resolves,
          countPiece_unresolved excluded (same.trans resolves)]
      | ok found =>
        obtain ⟨d, rules⟩ := found
        cases steps : trail.step? ⟨kind, name, m.variation⟩ with
        | none =>
          rw [countPiece_cycle excluded resolves steps,
            countPiece_cycle excluded (same.trans resolves) steps]
        | some longer =>
          rw [countPiece_reference excluded resolves steps,
            countPiece_reference excluded (same.trans resolves) steps]
          apply countRules_agree
          intro r hr
          exact bodies d rules longer resolves steps r hr (agree.inRules resolves r hr)
  case nil =>
    intro trail _
    rw [countPieces_nil, countPieces_nil]
  case cons =>
    intro trail p rest first others agree
    rw [countPieces_cons, countPieces_cons, first agree.head, others agree.tail]

theorem listRules_agree
    (each : ∀ r ∈ rules, other.listPieces trail r.pieces = s.listPieces trail r.pieces) :
    other.listRules trail kind name rules = s.listRules trail kind name rules := by
  induction rules with
  | nil => rw [listRules_nil, listRules_nil]
  | cons r rest ih =>
    rw [listRules_cons, listRules_cons, each r List.mem_cons_self,
      ih fun r hr => each r (List.mem_cons_of_mem _ hr)]

theorem listPieces_agree (s other : Store) (trail : Trail) :
    (∀ p, s.Agree other [p] → other.listPiece trail p = s.listPiece trail p) ∧
      ∀ pieces, s.Agree other pieces →
        other.listPieces trail pieces = s.listPieces trail pieces := by
  apply s.walk_induction
    (Q := fun trail p => s.Agree other [p] → other.listPiece trail p = s.listPiece trail p)
    (P := fun trail pieces => s.Agree other pieces →
      other.listPieces trail pieces = s.listPieces trail pieces)
  case word =>
    intro trail text _
    rw [listPiece_word, listPiece_word]
  case group =>
    intro trail pieces value m body agree
    cases excluded : (Piece.group pieces value m).isExcluded with
    | true => rw [listPiece_excluded excluded, listPiece_excluded excluded]
    | false =>
      rw [listPiece_group excluded, listPiece_group excluded]
      exact body agree.group
  case reference =>
    intro trail kind name m bodies agree
    cases excluded : (Piece.reference kind name m).isExcluded with
    | true => rw [listPiece_excluded excluded, listPiece_excluded excluded]
    | false =>
      have same := agree.resolve
      cases resolves : s.resolve ⟨kind, name, m.variation⟩ with
      | error e =>
        rw [listPiece_unresolved excluded resolves,
          listPiece_unresolved excluded (same.trans resolves)]
      | ok found =>
        obtain ⟨d, rules⟩ := found
        cases steps : trail.step? ⟨kind, name, m.variation⟩ with
        | none =>
          rw [listPiece_cycle excluded resolves steps,
            listPiece_cycle excluded (same.trans resolves) steps]
        | some longer =>
          rw [listPiece_reference excluded resolves steps,
            listPiece_reference excluded (same.trans resolves) steps]
          apply listRules_agree
          intro r hr
          exact bodies d rules longer resolves steps r hr (agree.inRules resolves r hr)
  case nil =>
    intro trail _
    rw [listPieces_nil, listPieces_nil]
  case cons =>
    intro trail p rest first others agree
    rw [listPieces_cons, listPieces_cons, first agree.head, others agree.tail]

end Store

namespace Generator

variable {g : Generator} {other : Store} {intent : String} {rules : List Rule}

/-- The generator with another store. -/
def withStore (g : Generator) (other : Store) : Generator := { g with store := other }

theorem attempt_agree (agree : ∀ r ∈ rules, g.store.Agree other r.pieces) (intent : String)
    (target : Option Target) (w : Words) :
    (g.withStore other).attempt intent target rules w = g.attempt intent target rules w := by
  unfold attempt
  generalize drawn : w.choose rules = choice
  obtain ⟨_ | r, next⟩ := choice
  · rfl
  · have known := Store.mem_of_choose (Pass.choose_of_words drawn)
    have same (trail : Trail) (pass : Pass) :
        other.expandRule trail r pass = g.store.expandRule trail r pass :=
      Store.expandRule_agree (agree r known) trail pass
    cases target with
    | none => simp only [withStore, same]
    | some t => simp only [withStore, Store.expandWithin, same]

theorem sample_agree (agree : ∀ r ∈ rules, g.store.Agree other r.pieces) (intent : String)
    (target : Option Target) (count : UInt64) (w : Words) :
    (g.withStore other).sample intent target rules count w =
      g.sample intent target rules count w := by
  have attempts := funext (attempt_agree agree intent target)
  unfold sample
  rw [attempts]
  rfl

theorem exhaust_agree (agree : ∀ r ∈ rules, g.store.Agree other r.pieces) (intent : String)
    (target : Target) (w : Words) :
    (g.withStore other).exhaust intent target rules w = g.exhaust intent target rules w := by
  have counted : other.countRules [target] rules = g.store.countRules [target] rules := by
    apply Store.countRules_agree
    intro r hr
    exact (g.store.countPieces_agree other _).2 r.pieces (agree r hr)
  have listed : other.listRules [target] target.kind target.name rules =
      g.store.listRules [target] target.kind target.name rules := by
    apply Store.listRules_agree
    intro r hr
    exact (g.store.listPieces_agree other _).2 r.pieces (agree r hr)
  unfold exhaust
  simp only [sample_agree agree]
  simp only [withStore, counted, listed]

theorem block_agree {v : Variation} (agree : ∀ r ∈ v.rules, g.store.Agree other r.pieces)
    (intent : String) (w : Words) : (g.withStore other).block intent v w = g.block intent v w := by
  unfold block
  cases v.count with
  | none => exact exhaust_agree agree intent _ w
  | some count => exact sample_agree agree intent _ count w

theorem blocks_agree {vs : List Variation}
    (agree : ∀ v ∈ vs, ∀ r ∈ v.rules, g.store.Agree other r.pieces) (intent : String) (w : Words) :
    (g.withStore other).blocks intent vs w = g.blocks intent vs w := by
  induction vs generalizing w with
  | nil => rfl
  | cons v rest ih =>
    have first := block_agree (agree v List.mem_cons_self) intent w
    have others := ih fun v hv => agree v (List.mem_cons_of_mem _ hv)
    simp only [blocks, first, others]

theorem selected_agree (found : g.store.find? .intent intent = other.find? .intent intent)
    (variation : Option String) :
    (g.withStore other).selected intent variation = g.selected intent variation := by
  simp only [selected, withStore, Store.get, found]

theorem generate_agree (agree : g.store.Agree other [.reference .intent intent {}])
    (variation : Option String) (w : Words) :
    (g.withStore other).generate intent variation w = g.generate intent variation w := by
  have found := agree.found (.reference trivial)
  unfold generate
  rw [selected_agree found]
  cases selected : g.selected intent variation with
  | error e => rfl
  | ok vs =>
    obtain ⟨d, there, own⟩ := mem_variations_of_selected selected
    apply blocks_agree
    intro v hv r hr
    exact agree.rule (.reference trivial) there (List.mem_flatMap.mpr ⟨v, own v hv, hr⟩)

theorem generateCount_agree (agree : g.store.Agree other [.reference .intent intent {}])
    (variation : Option String) (count : UInt64) (w : Words) :
    (g.withStore other).generateCount intent variation count w =
      g.generateCount intent variation count w := by
  have found := agree.found (.reference trivial)
  have same : other.resolve ⟨.intent, intent, variation⟩ =
      g.store.resolve ⟨.intent, intent, variation⟩ := by
    simp only [Store.resolve, Store.get, found]
  unfold generateCount
  by_cases zero : count = 0
  · rw [if_pos zero, if_pos zero]
  · rw [if_neg zero, if_neg zero]
    dsimp only [withStore]
    rw [same]
    cases resolves : g.store.resolve ⟨.intent, intent, variation⟩ with
    | error e => rfl
    | ok resolved =>
      obtain ⟨d, rules⟩ := resolved
      obtain ⟨there, meant⟩ := Store.resolve_eq_ok.mp resolves
      apply sample_agree
      intro r hr
      exact agree.rule (.reference trivial) there (Store.mem_allRules_of_rulesOf meant hr)

/-- **Only what is led to matters.** Where two stores have the same definitions under all names that
a rule leads to, a context goes through the same with that rule in both, and it is counted and
listed alike. So what is generated for an intent is the same in stores that agree on it and on all
that it leads to. -/
theorem agreement_suffices (s other : Store) :
    (∀ r : Rule, s.Agree other r.pieces →
      (∀ c : Context, ∃ outcome later, (s.expandRuleIn r).on c = some (outcome, later) ∧
        (other.expandRuleIn r).on c = some (outcome, later)) ∧
      ∀ trail, ∃ counted listed, (s.countRuleOn r).on trail = some (counted, trail) ∧
        (other.countRuleOn r).on trail = some (counted, trail) ∧
        (s.listRuleOn r).on trail = some (listed, trail) ∧
        (other.listRuleOn r).on trail = some (listed, trail)) ∧
    ∀ settings intent, s.Agree other [.reference .intent intent {}] → ∀ variation w,
      (⟨other, settings⟩ : Generator).generate intent variation w =
        (⟨s, settings⟩ : Generator).generate intent variation w ∧
      ∀ count, (⟨other, settings⟩ : Generator).generateCount intent variation count w =
        (⟨s, settings⟩ : Generator).generateCount intent variation count w := by
  constructor
  · intro r agree
    constructor
    · intro c
      obtain ⟨later, _, ran, _, _⟩ := s.returns_expandRuleIn r c
      exact ⟨_, later, ran, (Store.expandRuleIn_agree agree c).trans ran⟩
    · intro trail
      have counted := (s.countPieces_agree other trail).2 r.pieces agree
      have listed := (s.listPieces_agree other trail).2 r.pieces agree
      refine ⟨s.countRule trail r, s.listRule trail r, s.on_countRuleOn r trail, ?_,
        s.on_listRuleOn r trail, ?_⟩
      · rw [other.on_countRuleOn, Store.countRule, counted]
        rfl
      · rw [other.on_listRuleOn, Store.listRule, listed]
        rfl
  · intro settings intent agree variation w
    exact ⟨generate_agree (g := ⟨s, settings⟩) agree variation w,
      fun count => generateCount_agree (g := ⟨s, settings⟩) agree variation count w⟩

/-- Nothing that `hi` leads to is called `b`: whatever is put there, what is generated for `hi` is
the same. -/
theorem agreement_suffices_spare : ∃ s : Store,
    Template.read {} "%[hi]\n  oh ~[a]\n~[a]\n  x\n  %[hi?g/0]\n" = .ok s ∧
      ∀ d settings variation w,
        (⟨s.put .alias "b" d, settings⟩ : Generator).generate "hi" variation w =
          (⟨s, settings⟩ : Generator).generate "hi" variation w := by
  let a : Definition := ⟨"a", .alias, false, [⟨none, none,
    [⟨[.word "x"], none⟩, ⟨[.reference .intent "hi" { group := some "g", percent := some 0 }],
      none⟩]⟩]⟩
  let hi : Definition := ⟨"hi", .intent, false, [⟨none, none,
    [⟨[.word "oh", .reference .alias "a" {}], none⟩]⟩]⟩
  let s : Store := ⟨⟨[("a", a)], by decide⟩, ∅, ⟨[("hi", hi)], by decide⟩⟩
  have loaded : Template.read {} "%[hi]\n  oh ~[a]\n~[a]\n  x\n  %[hi?g/0]\n" = .ok s := by cbv
  have apart : ¬ s.Involves [.reference .intent "hi" {}] .alias "b" := by
    intro involved
    have inside := involved.inside
      (fun kind name => (kind, name) ∈ [(Kind.intent, "hi"), (Kind.alias, "a")])
      (by decide) (by
        intro kind name d there found
        simp only [List.mem_cons, List.not_mem_nil, or_false, Prod.mk.injEq] at there
        obtain ⟨rfl, rfl⟩ | ⟨rfl, rfl⟩ := there
        · cases (show s.find? .intent "hi" = some hi by rfl).symm.trans found
          decide
        · cases (show s.find? .alias "a" = some a by rfl).symm.trans found
          decide)
    exact absurd inside (by decide)
  refine ⟨s, loaded, fun d settings variation w => ?_⟩
  have same := (agreement_suffices s (s.put .alias "b" d)).2 settings "hi"
  exact (same (Store.agree_put apart d) variation w).1

end Generator
end Phrasebook
