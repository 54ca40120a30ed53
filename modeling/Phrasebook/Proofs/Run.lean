import Phrasebook.Proofs.Walk

/-!
# Runs

What goes on while a rule is expanded. A run comes to pieces, decides about each of them, draws
rules and draws casings, each from the state in which the choice before left the pass.

* `Store.Happens`: the pieces that a run comes to, with the pass there, and the casings it draws;
* `fails_of_happens`: a run fails when a piece that it comes to fails;
* `run_keeps`: what each choice of a pass keeps, a whole run keeps;
* `happens_keeps`: and it holds at every piece that the run comes to.
-/

namespace Phrasebook

/-- A fragment as a reference to a definition shows it. -/
def Fragment.shown (kind : Kind) (name : String) (value : Option String) (c : Casing)
    (f : Fragment) : Fragment :=
  if kind = .slot then (f.recase c).tagged name value f.text else f.recase c

namespace Piece

mutual

/-- The modifiers in a piece, its own first, those inside groups included. -/
def allModifiers : Piece → List Modifiers
  | word _ => []
  | group pieces _ m => m :: allModifiersOf pieces
  | reference _ _ m => [m]

def allModifiersOf : List Piece → List Modifiers
  | [] => []
  | p :: rest => p.allModifiers ++ allModifiersOf rest

end

end Piece

def Rule.allModifiers (r : Rule) : List Modifiers := Piece.allModifiersOf r.pieces

def Store.allModifiers (s : Store) : List Modifiers :=
  s.all.flatMap fun d => d.allRules.flatMap Rule.allModifiers

namespace Store

theorem mem_all_of_find? {s : Store} {kind : Kind} {name : String} {d : Definition}
    (h : s.find? kind name = some d) : d ∈ s.all := by
  have listed : (name, d) ∈ (s.table kind).entries := Table.mem_entries.mpr h
  apply List.mem_flatMap.mpr
  exact ⟨kind, by cases kind <;> decide, List.mem_map.mpr ⟨_, listed, rfl⟩⟩

theorem resolve_eq_ok {s : Store} {t : Target} {d : Definition} {rules : List Rule} :
    s.resolve t = .ok (d, rules) ↔
      s.find? t.kind t.name = some d ∧ d.rulesOf t.variation = .ok rules := by
  simp only [resolve, get]
  cases s.find? t.kind t.name with
  | none => simp [bind, Except.bind]
  | some found =>
    cases h : found.rulesOf t.variation with
    | error e =>
      simp only [bind, Except.bind, h, Option.some.injEq]
      constructor
      · intro hd; cases hd
      · rintro ⟨rfl, hr⟩; rw [h] at hr; cases hr
    | ok rules' =>
      simp only [bind, Except.bind, h, pure, Except.pure, Except.ok.injEq, Prod.mk.injEq,
        Option.some.injEq]
      constructor
      · rintro ⟨rfl, rfl⟩; exact ⟨rfl, h⟩
      · rintro ⟨rfl, hr⟩; rw [h] at hr; cases hr; exact ⟨rfl, rfl⟩

/-- What does not resolve is not declared, or has no such variation. -/
theorem missing_of_resolve {s : Store} {t : Target} {e : Error}
    (unresolved : s.resolve t = .error e) :
    (∃ kind name, e = .undeclared kind name) ∨
      ∃ kind name variation, e = .unknownVariation kind name variation := by
  simp only [resolve, get] at unresolved
  cases found : s.find? t.kind t.name with
  | none =>
    simp only [found, bind, Except.bind, Except.error.injEq] at unresolved
    exact .inl ⟨_, _, unresolved.symm⟩
  | some d =>
    simp only [found, bind, Except.bind] at unresolved
    cases variation : t.variation with
    | none => simp [variation, Definition.rulesOf, pure, Except.pure] at unresolved
    | some name =>
      simp only [variation, Definition.rulesOf] at unresolved
      cases known : d.variation? (some name) with
      | some v => simp [known, pure, Except.pure] at unresolved
      | none =>
        simp only [known, Except.error.injEq] at unresolved
        exact .inr ⟨_, _, _, unresolved.symm⟩

theorem mem_allRules_of_rulesOf {d : Definition} {variation : Option String} {rules : List Rule}
    (h : d.rulesOf variation = .ok rules) {r : Rule} (hr : r ∈ rules) : r ∈ d.allRules := by
  cases variation with
  | none =>
    cases h
    exact hr
  | some name =>
    simp only [Definition.rulesOf] at h
    split at h
    · next v found =>
      cases h
      exact List.mem_flatMap.mpr ⟨v, List.mem_of_find?_eq_some found, hr⟩
    · cases h

theorem allModifiers_of_resolve {s : Store} {t : Target} {d : Definition} {rules : List Rule}
    (h : s.resolve t = .ok (d, rules)) {r : Rule} (hr : r ∈ rules) {m : Modifiers}
    (hm : m ∈ r.allModifiers) : m ∈ s.allModifiers := by
  obtain ⟨found, meant⟩ := resolve_eq_ok.mp h
  exact List.mem_flatMap.mpr ⟨d, mem_all_of_find? found,
    List.mem_flatMap.mpr ⟨r, mem_allRules_of_rulesOf meant hr, hm⟩⟩

section
variable {s : Store} {trail longer : Trail} {kind : Kind} {name : String} {m : Modifiers}
  {pass next chosen last : Pass}

theorem expandPiece_word (text : String) (pass : Pass) :
    s.expandPiece trail (.word text) pass = (.ok (.word text), pass) := by
  rw [expandPiece]

theorem expandPiece_group_left {pieces : List Piece} {value : Option String}
    (left : pass.includes m = (false, next)) :
    s.expandPiece trail (.group pieces value m) pass = (.ok {}, next) := by
  rw [expandPiece, left]

theorem expandPiece_group {pieces : List Piece} {value : Option String}
    {outcome : Outcome Fragment} (taken : pass.includes m = (true, next))
    (body : s.expandPieces trail pieces next = (outcome, last)) :
    s.expandPiece trail (.group pieces value m) pass =
      match outcome with
      | .error e => (.error e, last)
      | .ok f => (.ok (f.recase (last.casing m.casing).1), (last.casing m.casing).2) := by
  rw [expandPiece, taken]
  cases outcome <;> simp only [body]

theorem expandPiece_reference_left (left : pass.includes m = (false, next)) :
    s.expandPiece trail (.reference kind name m) pass = (.ok {}, next) := by
  rw [expandPiece, left]

theorem expandPiece_unresolved {e : Error} (taken : pass.includes m = (true, next))
    (resolves : s.resolve ⟨kind, name, m.variation⟩ = .error e) :
    s.expandPiece trail (.reference kind name m) pass = (.error e, next) := by
  rw [expandPiece, taken]
  dsimp only
  split <;> simp_all

theorem expandPiece_ruleless {d : Definition} {rules : List Rule}
    (taken : pass.includes m = (true, next))
    (resolves : s.resolve ⟨kind, name, m.variation⟩ = .ok (d, rules))
    (draws : next.choose rules = (none, chosen)) :
    s.expandPiece trail (.reference kind name m) pass =
      (.error (.withoutRules kind name), chosen) := by
  rw [expandPiece, taken]
  dsimp only
  split <;> simp_all

theorem expandPiece_cycle {d : Definition} {rules : List Rule} {rule : Rule}
    (taken : pass.includes m = (true, next))
    (resolves : s.resolve ⟨kind, name, m.variation⟩ = .ok (d, rules))
    (draws : next.choose rules = (some rule, chosen))
    (steps : trail.step? ⟨kind, name, m.variation⟩ = none) :
    s.expandPiece trail (.reference kind name m) pass =
      (.error (.cycle (trail.cycle ⟨kind, name, m.variation⟩)), chosen) := by
  rw [expandPiece, taken]
  dsimp only
  split
  · simp_all
  · rename_i d' rules' resolves'
    obtain ⟨rfl, rfl⟩ : d' = d ∧ rules' = rules := by simpa [resolves] using resolves'.symm
    simp only [draws]
    split <;> simp_all [Trail.step]

theorem expandPiece_reference {d : Definition} {rules : List Rule} {rule : Rule}
    {outcome : Outcome Fragment} (taken : pass.includes m = (true, next))
    (resolves : s.resolve ⟨kind, name, m.variation⟩ = .ok (d, rules))
    (draws : next.choose rules = (some rule, chosen))
    (steps : trail.step? ⟨kind, name, m.variation⟩ = some longer)
    (body : s.expandPieces longer rule.pieces chosen = (outcome, last)) :
    s.expandPiece trail (.reference kind name m) pass =
      match outcome with
      | .error e => (.error e, last)
      | .ok f =>
        (.ok (f.shown kind name rule.value (last.casing (m.casing || d.casing)).1),
          (last.casing (m.casing || d.casing)).2) := by
  rw [expandPiece, taken]
  dsimp only
  split
  · simp_all
  · rename_i d' rules' resolves'
    obtain ⟨rfl, rfl⟩ : d' = d ∧ rules' = rules := by simpa [resolves] using resolves'.symm
    simp only [draws]
    split
    · simp_all [Trail.step]
    · rename_i longer' steps'
      obtain rfl : longer' = longer := by simpa [Trail.step, steps] using steps'.symm
      cases outcome <;> simp only [body, Fragment.shown]

theorem expandPieces_nil (pass : Pass) : s.expandPieces trail [] pass = (.ok {}, pass) := by
  rw [expandPieces]

theorem expandPieces_error {p : Piece} {rest : List Piece} {e : Error}
    (fails : s.expandPiece trail p pass = (.error e, next)) :
    s.expandPieces trail (p :: rest) pass = (.error e, next) := by
  rw [expandPieces, fails]

theorem expandPieces_cons {p : Piece} {rest : List Piece} {f : Fragment}
    {outcome : Outcome Fragment} (first : s.expandPiece trail p pass = (.ok f, next))
    (others : s.expandPieces trail rest next = (outcome, last)) :
    s.expandPieces trail (p :: rest) pass =
      match outcome with
      | .error e => (.error e, last)
      | .ok g => (.ok (f.append g), last) := by
  rw [expandPieces, first]
  cases outcome <;> simp only [others]

end

/-- Everything that expanding one piece can come to, with the state it leaves. -/
inductive Expanded (s : Store) (trail : Trail) : Piece → Pass → Outcome Fragment × Pass → Prop
  | word (text pass) : Expanded s trail (.word text) pass (.ok (.word text), pass)
  | groupLeft {pieces value m pass next} (left : pass.includes m = (false, next)) :
      Expanded s trail (.group pieces value m) pass (.ok {}, next)
  | groupFailed {pieces value m pass next e last} (taken : pass.includes m = (true, next))
      (body : s.expandPieces trail pieces next = (.error e, last)) :
      Expanded s trail (.group pieces value m) pass (.error e, last)
  | group {pieces value m pass next f last} (taken : pass.includes m = (true, next))
      (body : s.expandPieces trail pieces next = (.ok f, last)) :
      Expanded s trail (.group pieces value m) pass
        (.ok (f.recase (last.casing m.casing).1), (last.casing m.casing).2)
  | referenceLeft {kind name m pass next} (left : pass.includes m = (false, next)) :
      Expanded s trail (.reference kind name m) pass (.ok {}, next)
  | unresolved {kind name m pass next e} (taken : pass.includes m = (true, next))
      (resolves : s.resolve ⟨kind, name, m.variation⟩ = .error e) :
      Expanded s trail (.reference kind name m) pass (.error e, next)
  | ruleless {kind name m pass next d rules chosen} (taken : pass.includes m = (true, next))
      (resolves : s.resolve ⟨kind, name, m.variation⟩ = .ok (d, rules))
      (draws : next.choose rules = (none, chosen)) :
      Expanded s trail (.reference kind name m) pass (.error (.withoutRules kind name), chosen)
  | cycle {kind name m pass next d rules rule chosen} (taken : pass.includes m = (true, next))
      (resolves : s.resolve ⟨kind, name, m.variation⟩ = .ok (d, rules))
      (draws : next.choose rules = (some rule, chosen))
      (steps : trail.step? ⟨kind, name, m.variation⟩ = none) :
      Expanded s trail (.reference kind name m) pass
        (.error (.cycle (trail.cycle ⟨kind, name, m.variation⟩)), chosen)
  | referenceFailed {kind name m pass next d rules rule chosen longer e last}
      (taken : pass.includes m = (true, next))
      (resolves : s.resolve ⟨kind, name, m.variation⟩ = .ok (d, rules))
      (draws : next.choose rules = (some rule, chosen))
      (steps : trail.step? ⟨kind, name, m.variation⟩ = some longer)
      (body : s.expandPieces longer rule.pieces chosen = (.error e, last)) :
      Expanded s trail (.reference kind name m) pass (.error e, last)
  | reference {kind name m pass next d rules rule chosen longer f last}
      (taken : pass.includes m = (true, next))
      (resolves : s.resolve ⟨kind, name, m.variation⟩ = .ok (d, rules))
      (draws : next.choose rules = (some rule, chosen))
      (steps : trail.step? ⟨kind, name, m.variation⟩ = some longer)
      (body : s.expandPieces longer rule.pieces chosen = (.ok f, last)) :
      Expanded s trail (.reference kind name m) pass
        (.ok (f.shown kind name rule.value (last.casing (m.casing || d.casing)).1),
          (last.casing (m.casing || d.casing)).2)

theorem expandPiece_expanded (s : Store) (trail : Trail) (p : Piece) (pass : Pass) :
    Expanded s trail p pass (s.expandPiece trail p pass) := by
  cases p with
  | word text =>
    rw [expandPiece_word]
    exact .word text pass
  | group pieces value m =>
    cases taken : pass.includes m with
    | mk decision next =>
      cases decision with
      | false =>
        rw [expandPiece_group_left taken]
        exact .groupLeft taken
      | true =>
        cases body : s.expandPieces trail pieces next with
        | mk outcome last =>
          rw [expandPiece_group taken body]
          cases outcome with
          | error e => exact .groupFailed taken body
          | ok f => exact .group taken body
  | reference kind name m =>
    cases taken : pass.includes m with
    | mk decision next =>
      cases decision with
      | false =>
        rw [expandPiece_reference_left taken]
        exact .referenceLeft taken
      | true =>
        cases resolves : s.resolve ⟨kind, name, m.variation⟩ with
        | error e =>
          rw [expandPiece_unresolved taken resolves]
          exact .unresolved taken resolves
        | ok found =>
          obtain ⟨d, rules⟩ := found
          cases draws : next.choose rules with
          | mk rule? chosen =>
            cases rule? with
            | none =>
              rw [expandPiece_ruleless taken resolves draws]
              exact .ruleless taken resolves draws
            | some rule =>
              cases steps : trail.step? ⟨kind, name, m.variation⟩ with
              | none =>
                rw [expandPiece_cycle taken resolves draws steps]
                exact .cycle taken resolves draws steps
              | some longer =>
                cases body : s.expandPieces longer rule.pieces chosen with
                | mk outcome last =>
                  rw [expandPiece_reference taken resolves draws steps body]
                  cases outcome with
                  | error e => exact .referenceFailed taken resolves draws steps body
                  | ok f => exact .reference taken resolves draws steps body

/-- Everything that expanding a piece and those after it can come to. -/
inductive ExpandedAll (s : Store) (trail : Trail) (p : Piece) (rest : List Piece) (pass : Pass) :
    Outcome Fragment × Pass → Prop
  | failed {e last} (first : s.expandPiece trail p pass = (.error e, last)) :
      ExpandedAll s trail p rest pass (.error e, last)
  | failedLater {f next e last} (first : s.expandPiece trail p pass = (.ok f, next))
      (others : s.expandPieces trail rest next = (.error e, last)) :
      ExpandedAll s trail p rest pass (.error e, last)
  | done {f next g last} (first : s.expandPiece trail p pass = (.ok f, next))
      (others : s.expandPieces trail rest next = (.ok g, last)) :
      ExpandedAll s trail p rest pass (.ok (f.append g), last)

theorem expandPieces_expanded (s : Store) (trail : Trail) (p : Piece) (rest : List Piece)
    (pass : Pass) : ExpandedAll s trail p rest pass (s.expandPieces trail (p :: rest) pass) := by
  cases first : s.expandPiece trail p pass with
  | mk outcome next =>
    cases outcome with
    | error e =>
      rw [expandPieces_error first]
      exact .failed first
    | ok f =>
      cases others : s.expandPieces trail rest next with
      | mk outcome last =>
        rw [expandPieces_cons first others]
        cases outcome with
        | error e => exact .failedLater first others
        | ok g => exact .done first others

/-- What goes on in a run: it comes to a piece, with the trail and the pass there, or it draws a
casing. -/
inductive Happening where
  | reached (trail : Trail) (p : Piece) (pass : Pass)
  | recased (c : Casing)

/-- Expanding pieces from a pass, something happens: at the first piece, inside it if it is taken,
or after it if it succeeds. -/
inductive Happens (s : Store) : Trail → List Piece → Pass → Happening → Prop
  | reached {trail p rest pass} : Happens s trail (p :: rest) pass (.reached trail p pass)
  | inGroup {trail pieces value m rest pass next h} (taken : pass.includes m = (true, next))
      (inside : Happens s trail pieces next h) :
      Happens s trail (.group pieces value m :: rest) pass h
  | groupRecased {trail pieces value m rest pass next last f}
      (taken : pass.includes m = (true, next))
      (body : s.expandPieces trail pieces next = (.ok f, last)) (random : m.casing = true) :
      Happens s trail (.group pieces value m :: rest) pass (.recased (last.casing true).1)
  | inRule {trail kind name m rest pass next d rules rule chosen longer h}
      (taken : pass.includes m = (true, next))
      (resolves : s.resolve ⟨kind, name, m.variation⟩ = .ok (d, rules))
      (draws : next.choose rules = (some rule, chosen))
      (steps : trail.step? ⟨kind, name, m.variation⟩ = some longer)
      (inside : Happens s longer rule.pieces chosen h) :
      Happens s trail (.reference kind name m :: rest) pass h
  | referenceRecased {trail kind name m rest pass next d rules rule chosen longer last f}
      (taken : pass.includes m = (true, next))
      (resolves : s.resolve ⟨kind, name, m.variation⟩ = .ok (d, rules))
      (draws : next.choose rules = (some rule, chosen))
      (steps : trail.step? ⟨kind, name, m.variation⟩ = some longer)
      (body : s.expandPieces longer rule.pieces chosen = (.ok f, last))
      (random : (m.casing || d.casing) = true) :
      Happens s trail (.reference kind name m :: rest) pass (.recased (last.casing true).1)
  | later {trail p rest pass next f h} (first : s.expandPiece trail p pass = (.ok f, next))
      (after : Happens s trail rest next h) : Happens s trail (p :: rest) pass h

theorem Happens.before {s : Store} {trail : Trail} {p : Piece} {pass : Pass} {h : Happening}
    (alone : s.Happens trail [p] pass h) (rest : List Piece) :
    s.Happens trail (p :: rest) pass h := by
  cases alone with
  | reached => exact .reached
  | inGroup taken inside => exact .inGroup taken inside
  | groupRecased taken body random => exact .groupRecased taken body random
  | inRule taken resolves draws steps inside => exact .inRule taken resolves draws steps inside
  | referenceRecased taken resolves draws steps body random =>
    exact .referenceRecased taken resolves draws steps body random
  | later _ after => cases after

def Fails (s : Store) (trail : Trail) (pieces : List Piece) (pass : Pass) : Prop :=
  ∃ e, (s.expandPieces trail pieces pass).1 = .error e

theorem fails_iff {s : Store} {trail : Trail} {pieces : List Piece} {pass : Pass} :
    s.Fails trail pieces pass ↔
      ∃ e last, s.expandPieces trail pieces pass = (.error e, last) := by
  constructor
  · rintro ⟨e, h⟩
    exact ⟨e, _, Prod.ext h rfl⟩
  · rintro ⟨e, last, h⟩
    exact ⟨e, by rw [h]⟩

theorem fails_of_piece {s : Store} {trail : Trail} {p : Piece} {pass last : Pass} {e : Error}
    (rest : List Piece) (h : s.expandPiece trail p pass = (.error e, last)) :
    s.Fails trail (p :: rest) pass :=
  fails_iff.mpr ⟨e, last, expandPieces_error h⟩

theorem fails_of_single {s : Store} {trail : Trail} {p : Piece} {pass : Pass}
    (h : s.Fails trail [p] pass) (rest : List Piece) : s.Fails trail (p :: rest) pass := by
  obtain ⟨e, last, h⟩ := fails_iff.mp h
  cases first : s.expandPiece trail p pass with
  | mk outcome next =>
    cases outcome with
    | error e => exact fails_of_piece rest first
    | ok f => simp [expandPieces_cons first (expandPieces_nil next)] at h

/-- A failure is not caught: where a run comes to a piece that fails, it fails. -/
theorem fails_of_happens {s : Store} {trail t : Trail} {pieces : List Piece} {pass there : Pass}
    {q : Piece} (h : s.Happens trail pieces pass (.reached t q there))
    (fails : s.Fails t [q] there) : s.Fails trail pieces pass := by
  generalize he : Happening.reached t q there = e at h
  induction h with
  | reached =>
    cases he
    exact fails_of_single fails _
  | inGroup taken _ ih =>
    obtain ⟨e, last, body⟩ := fails_iff.mp (ih he)
    exact fails_of_piece _ (expandPiece_group taken body)
  | groupRecased => cases he
  | inRule taken resolves draws steps _ ih =>
    obtain ⟨e, last, body⟩ := fails_iff.mp (ih he)
    exact fails_of_piece _ (expandPiece_reference taken resolves draws steps body)
  | referenceRecased => cases he
  | later first _ ih =>
    obtain ⟨e, last, others⟩ := fails_iff.mp (ih he)
    exact fails_iff.mpr ⟨e, last, expandPieces_cons first others⟩

/-! ## What a run keeps -/

theorem mem_of_choose {α : Type} {values : List α} {v : α} {pass next : Pass}
    (h : pass.choose values = (some v, next)) : v ∈ values := by
  simp only [Pass.choose, Words.choose, Prod.mk.injEq] at h
  split at h
  · cases h.1
  · exact List.mem_of_getElem? h.1

theorem choose_none {α : Type} {values : List α} {pass next : Pass}
    (h : pass.choose values = (none, next)) : values = [] := by
  simp only [Pass.choose, Words.choose, Prod.mk.injEq] at h
  split at h
  · next empty => exact List.isEmpty_iff.mp empty
  · next nonempty =>
    have positive : 0 < values.length := List.length_pos_iff.mpr (by simpa using nonempty)
    have inside := Words.below_lt positive pass.words
    exact absurd (List.getElem?_eq_none_iff.mp h.1) (by omega)

section
variable {s : Store} {I : Pass → Prop} {M : Modifiers → Prop}

/-- What each decision and each word taken keeps, a run keeps, whatever it ends in. -/
theorem run_keeps (decides : ∀ m pass, M m → I pass → I (pass.includes m).2)
    (draws : ∀ pass words, I pass → I { pass with words })
    (stored : ∀ m ∈ s.allModifiers, M m) (trail : Trail) :
    (∀ p : Piece, (∀ m ∈ p.allModifiers, M m) →
      ∀ pass, I pass → I (s.expandPiece trail p pass).2) ∧
    ∀ pieces : List Piece, (∀ m ∈ Piece.allModifiersOf pieces, M m) →
      ∀ pass, I pass → I (s.expandPieces trail pieces pass).2 := by
  have recases : ∀ random pass, I pass → I (pass.casing random).2 := by
    intro random pass hi
    cases random with
    | false => exact hi
    | true => exact draws pass _ hi
  refine walk_induction s
    (Q := fun trail p => (∀ m ∈ p.allModifiers, M m) →
      ∀ pass, I pass → I (s.expandPiece trail p pass).2)
    (P := fun trail pieces => (∀ m ∈ Piece.allModifiersOf pieces, M m) →
      ∀ pass, I pass → I (s.expandPieces trail pieces pass).2)
    ?word ?group ?reference ?nil ?cons trail
  case word =>
    intro trail text _ pass hi
    rw [expandPiece_word]
    exact hi
  case group =>
    intro trail pieces value m ih hm pass hi
    have decided := decides m pass (hm m List.mem_cons_self) hi
    have inside := ih (fun m h => hm m (List.mem_cons_of_mem _ h))
    generalize run : s.expandPiece trail (.group pieces value m) pass = result
    have expanded := run ▸ expandPiece_expanded s trail (.group pieces value m) pass
    cases expanded with
    | groupLeft left => rwa [left] at decided
    | @groupFailed _ _ _ _ next _ _ taken body =>
      rw [taken] at decided
      simpa only [body] using inside next decided
    | @group _ _ _ _ next f last taken body =>
      rw [taken] at decided
      exact recases _ last (by simpa only [body] using inside next decided)
  case reference =>
    intro trail kind name m ih hm pass hi
    have decided := decides m pass (hm m List.mem_cons_self) hi
    have drawn : ∀ next (rules : List Rule), I next → I (next.choose rules).2 :=
      fun next rules hi => draws next _ hi
    have inside : ∀ d rules longer rule next chosen,
        s.resolve ⟨kind, name, m.variation⟩ = .ok (d, rules) →
        trail.step? ⟨kind, name, m.variation⟩ = some longer →
        next.choose rules = (some rule, chosen) → I next →
        I (s.expandPieces longer rule.pieces chosen).2 := by
      intro d rules longer rule next chosen resolves steps draws hn
      have known := mem_of_choose draws
      refine ih d rules longer resolves steps rule known ?_ chosen ?_
      · exact fun m h => stored m (allModifiers_of_resolve resolves known h)
      · simpa only [draws] using drawn next rules hn
    generalize run : s.expandPiece trail (.reference kind name m) pass = result
    have expanded := run ▸ expandPiece_expanded s trail (.reference kind name m) pass
    cases expanded with
    | referenceLeft left => rwa [left] at decided
    | unresolved taken => rwa [taken] at decided
    | @ruleless _ _ _ _ next _ rules _ taken _ none =>
      rw [taken] at decided
      simpa only [none] using drawn next rules decided
    | @cycle _ _ _ _ next _ rules _ _ taken _ chosen =>
      rw [taken] at decided
      simpa only [chosen] using drawn next rules decided
    | @referenceFailed _ _ _ _ next _ _ _ _ _ _ _ taken resolves chosen steps body =>
      rw [taken] at decided
      simpa only [body] using inside _ _ _ _ next _ resolves steps chosen decided
    | @reference _ _ _ _ next _ _ _ _ _ _ last taken resolves chosen steps body =>
      rw [taken] at decided
      exact recases _ last
        (by simpa only [body] using inside _ _ _ _ next _ resolves steps chosen decided)
  case nil =>
    intro trail _ pass hi
    rw [expandPieces_nil]
    exact hi
  case cons =>
    intro trail p rest one others hm pass hi
    have first := one (fun m h => hm m (List.mem_append_left _ h)) pass hi
    have after := others (fun m h => hm m (List.mem_append_right _ h))
    generalize run : s.expandPieces trail (p :: rest) pass = result
    have expanded := run ▸ expandPieces_expanded s trail p rest pass
    cases expanded with
    | failed failure => rwa [failure] at first
    | @failedLater _ next _ _ done failure =>
      rw [done] at first
      simpa only [failure] using after next first
    | @done _ next _ _ done more =>
      rw [done] at first
      simpa only [more] using after next first

/-- What a run keeps holds wherever it comes to a piece. -/
theorem happens_keeps (decides : ∀ m pass, M m → I pass → I (pass.includes m).2)
    (draws : ∀ pass words, I pass → I { pass with words })
    (stored : ∀ m ∈ s.allModifiers, M m) {trail t : Trail} {pieces : List Piece} {q : Piece}
    {pass there : Pass} (h : s.Happens trail pieces pass (.reached t q there))
    (hm : ∀ m ∈ Piece.allModifiersOf pieces, M m) (hi : I pass) :
    I there ∧ ∀ m ∈ q.allModifiers, M m := by
  generalize he : Happening.reached t q there = e at h
  induction h with
  | reached =>
    cases he
    exact ⟨hi, fun m h => hm m (List.mem_append_left _ h)⟩
  | @inGroup _ pieces _ m _ pass next _ taken _ ih =>
    have decided := decides m pass (hm m List.mem_cons_self) hi
    rw [taken] at decided
    exact ih (fun m h => hm m (List.mem_append_left _ (List.mem_cons_of_mem _ h))) decided he
  | groupRecased => cases he
  | @inRule _ _ _ m _ pass next _ rules rule _ _ _ taken resolves chosen _ _ ih =>
    have decided := decides m pass (hm m List.mem_cons_self) hi
    rw [taken] at decided
    have drawn : I (next.choose rules).2 := draws next _ decided
    rw [chosen] at drawn
    exact ih (fun m h => stored m (allModifiers_of_resolve resolves (mem_of_choose chosen) h))
      drawn he
  | referenceRecased => cases he
  | @later trail p _ pass _ _ _ first _ ih =>
    have kept := (run_keeps decides draws stored trail).1 p
      (fun m h => hm m (List.mem_append_left _ h)) pass hi
    rw [first] at kept
    exact ih (fun m h => hm m (List.mem_append_right _ h)) kept he

end
end Store
end Phrasebook
