import Mathlib
import Phrasebook.Counting
import Phrasebook.Proofs.Declared
import Phrasebook.Proofs.Decision

/-!
# What a finite count promises

Counting leaves out what stands at zero percent, and with it whatever is wrong there. A run does so
only where the group of such a piece was not decided before: a decision that fell for another piece
of the group, at another percentage, holds for this one too and revives it.

* `Store.Revives`: the run takes a piece at zero percent, and that piece fails;
* `expandRule_of_finite`: under a finite count a run fails exactly where it revives such a piece,
  and never where no named group stands both at zero percent and at another percentage;
* `revived_piece_fails`: a rule with one combination of which no run succeeds.

Mathlib is imported whole: the runs at the end are evaluated with equations from all over it.
-/

namespace Phrasebook

theorem Combinations.times_eq_finite {a b : Combinations} {n : UInt64}
    (h : a.times b = .finite n) : (∃ x, a = .finite x) ∧ ∃ y, b = .finite y := by
  cases a <;> cases b <;> simp_all [times]

theorem Combinations.plus_eq_finite {a b : Combinations} {n : UInt64}
    (h : a.plus b = .finite n) : (∃ x, a = .finite x) ∧ ∃ y, b = .finite y := by
  cases a <;> cases b <;> simp_all [plus]

namespace Store

variable {s : Store} {trail : Trail}

/-! ## Parts of a finite count -/

theorem finite_of_cons {p : Piece} {rest : List Piece} {n : UInt64}
    (h : s.countPieces trail (p :: rest) = .ok (.finite n)) :
    (∃ x, s.countPiece trail p = .ok (.finite x)) ∧
      ∃ y, s.countPieces trail rest = .ok (.finite y) := by
  rw [countPieces_cons] at h
  obtain ⟨first, counted, h⟩ := bind_eq_ok.mp h
  obtain ⟨others, counted', h⟩ := bind_eq_ok.mp h
  obtain ⟨⟨x, rfl⟩, ⟨y, rfl⟩⟩ := Combinations.times_eq_finite (Except.ok.inj h)
  exact ⟨⟨x, counted⟩, ⟨y, counted'⟩⟩

theorem finite_of_mem {rules : List Rule} {n : UInt64}
    (h : s.countRules trail rules = .ok (.finite n)) {r : Rule} (hr : r ∈ rules) :
    ∃ x, s.countPieces trail r.pieces = .ok (.finite x) := by
  induction rules generalizing n with
  | nil => cases hr
  | cons first rest ih =>
    rw [countRules_cons] at h
    obtain ⟨one, counted, h⟩ := bind_eq_ok.mp h
    obtain ⟨others, counted', h⟩ := bind_eq_ok.mp h
    obtain ⟨⟨x, rfl⟩, ⟨y, rfl⟩⟩ := Combinations.plus_eq_finite (Except.ok.inj h)
    rcases List.mem_cons.mp hr with rfl | hr
    · exact ⟨x, counted⟩
    · exact ih counted' hr

theorem finite_of_reference {kind : Kind} {name : String} {m : Modifiers} {n : UInt64}
    (there : (Piece.reference kind name m).isExcluded = false)
    (h : s.countPiece trail (.reference kind name m) = .ok (.finite n)) :
    ∃ d rules longer, s.resolve ⟨kind, name, m.variation⟩ = .ok (d, rules) ∧
      trail.step? ⟨kind, name, m.variation⟩ = some longer ∧
      ∀ r ∈ rules, ∃ x, s.countPieces longer r.pieces = .ok (.finite x) := by
  cases resolves : s.resolve ⟨kind, name, m.variation⟩ with
  | error e =>
    rw [countPiece_unresolved there resolves] at h
    cases h
  | ok found =>
    obtain ⟨d, rules⟩ := found
    cases steps : trail.step? ⟨kind, name, m.variation⟩ with
    | none =>
      rw [countPiece_cycle there resolves steps] at h
      cases h
    | some longer =>
      rw [countPiece_reference there resolves steps] at h
      exact ⟨d, rules, longer, rfl, rfl, fun r hr => finite_of_mem h hr⟩

/-! ## Where a run can fail -/

/-- The run comes to a piece at zero percent whose group was decided as there, and the piece
fails. -/
def Revives (s : Store) (trail : Trail) (pieces : List Piece) (pass : Pass) : Prop :=
  ∃ t q there, s.Happens trail pieces pass (.reached t q there) ∧ q.isExcluded = true ∧
    (∃ group, group ≠ "" ∧ q.modifiers.group = some group ∧
      there.decisions.lookup group = some true) ∧
    s.Fails t [q] there

theorem Revives.weaken {pieces rest : List Piece} {pass pass' : Pass} {trail' : Trail}
    (h : s.Revives trail pieces pass)
    (happens : ∀ e, s.Happens trail pieces pass e → s.Happens trail' rest pass' e) :
    s.Revives trail' rest pass' := by
  obtain ⟨t, q, there, comes, excluded, decided, fails⟩ := h
  exact ⟨t, q, there, happens _ comes, excluded, decided, fails⟩

theorem taken_of_error {p : Piece} {pass last : Pass} {e : Error}
    (h : s.expandPiece trail p pass = (.error e, last)) :
    (pass.includes p.modifiers).1 = true := by
  have expanded := expandPiece_expanded s trail p pass
  rw [h] at expanded
  cases expanded with
  | groupFailed taken => exact congrArg Prod.fst taken
  | unresolved taken => exact congrArg Prod.fst taken
  | ruleless taken => exact congrArg Prod.fst taken
  | cycle taken => exact congrArg Prod.fst taken
  | referenceFailed taken => exact congrArg Prod.fst taken

theorem revives_of_excluded {p : Piece} {pass last : Pass} {e : Error}
    (excluded : p.isExcluded = true) (h : s.expandPiece trail p pass = (.error e, last)) :
    s.Revives trail [p] pass :=
  ⟨trail, p, pass, .reached, excluded,
    Pass.decided_of_includes (Piece.isExcluded_iff.mp excluded) (taken_of_error h),
    fails_of_piece [] h⟩

/-- What was counted and still fails was revived: outside of what stands at zero percent counting
looks at everything that a run can come to. -/
theorem revives_of_error (furnished : s.Furnished) (trail : Trail) :
    (∀ p, (∃ n, s.countPiece trail p = .ok (.finite n)) → ∀ pass e last,
      s.expandPiece trail p pass = (.error e, last) → s.Revives trail [p] pass) ∧
    ∀ pieces, (∃ n, s.countPieces trail pieces = .ok (.finite n)) → ∀ pass e last,
      s.expandPieces trail pieces pass = (.error e, last) → s.Revives trail pieces pass := by
  refine walk_induction s
    (Q := fun trail p => (∃ n, s.countPiece trail p = .ok (.finite n)) → ∀ pass e last,
      s.expandPiece trail p pass = (.error e, last) → s.Revives trail [p] pass)
    (P := fun trail pieces => (∃ n, s.countPieces trail pieces = .ok (.finite n)) →
      ∀ pass e last, s.expandPieces trail pieces pass = (.error e, last) →
        s.Revives trail pieces pass)
    ?word ?group ?reference ?nil ?cons trail
  case word =>
    intro trail text _ pass e last h
    rw [expandPiece_word] at h
    cases h
  case group =>
    intro trail pieces value m ih counted pass e last h
    cases left : (Piece.group pieces value m).isExcluded with
    | true => exact revives_of_excluded left h
    | false =>
      rw [countPiece_group left] at counted
      have expanded := expandPiece_expanded s trail (.group pieces value m) pass
      rw [h] at expanded
      cases expanded with
      | groupFailed taken body =>
        exact (ih counted _ _ _ body).weaken fun _ inside => .inGroup taken inside
  case reference =>
    intro trail kind name m ih counted pass e last h
    cases left : (Piece.reference kind name m).isExcluded with
    | true => exact revives_of_excluded left h
    | false =>
      obtain ⟨n, counted⟩ := counted
      obtain ⟨d, rules, longer, resolves, steps, finite⟩ := finite_of_reference left counted
      have expanded := expandPiece_expanded s trail (.reference kind name m) pass
      rw [h] at expanded
      cases expanded with
      | unresolved _ resolves' =>
        rw [resolves] at resolves'
        cases resolves'
      -- the only failure that counting does not look for, and no template has it
      | ruleless _ resolves' draws =>
        rw [resolves] at resolves'
        cases resolves'
        obtain ⟨found, meant⟩ := resolve_eq_ok.mp resolves
        exact absurd (choose_none draws) ((furnished _ _ _ found).rulesOf meant)
      | cycle _ _ _ steps' =>
        rw [steps] at steps'
        cases steps'
      | @referenceFailed _ _ _ _ _ _ _ rule _ _ _ _ taken resolves' draws steps' body =>
        rw [resolves] at resolves'
        cases resolves'
        rw [steps] at steps'
        cases steps'
        have known := mem_of_choose draws
        exact (ih d rules longer resolves steps rule known (finite rule known) _ _ _ body).weaken
          fun _ inside => .inRule taken resolves draws steps inside
  case nil =>
    intro trail _ pass e last h
    rw [expandPieces_nil] at h
    cases h
  case cons =>
    intro trail p rest one others counted pass e last h
    obtain ⟨n, counted⟩ := counted
    obtain ⟨first, after⟩ := finite_of_cons counted
    have expanded := expandPieces_expanded s trail p rest pass
    rw [h] at expanded
    cases expanded with
    | failed failure => exact (one first _ _ _ failure).weaken fun _ alone => alone.before rest
    | failedLater done failure =>
      exact (others after _ _ _ failure).weaken fun _ later => .later done later

theorem Revives.fails {pieces : List Piece} {pass : Pass} (h : s.Revives trail pieces pass) :
    s.Fails trail pieces pass := by
  obtain ⟨t, q, there, comes, _, _, fails⟩ := h
  exact fails_of_happens comes fails

theorem not_revives {r : Rule} (unmixed : s.Unmixed r) (w : Words) :
    ¬ s.Revives trail r.pieces ⟨w, []⟩ := by
  rintro ⟨t, q, there, comes, excluded, ⟨group, nonempty, named, decided⟩, _⟩
  have left := excluded_left unmixed comes excluded
  have named? : group.isEmpty = false := by simpa using nonempty
  simp [Pass.includes, named, Pass.decide, named?, decided] at left

/-- **What a finite count promises.** For a template, a rule whose count is finite fails to expand
exactly in the runs that revive a piece at zero percent which fails. There are none of these where
no named group stands both at zero percent and at another percentage. -/
theorem expandRule_of_finite {fs : Files} {text : String} {s : Store} {r : Rule} {n : UInt64}
    (loaded : Template.read fs text = .ok s) (counted : s.countRule [] r = .ok (.finite n)) :
    (∀ w, (∃ e, (s.expandRule [] r ⟨w, []⟩).1 = .error e) ↔ s.Revives [] r.pieces ⟨w, []⟩) ∧
    (s.Unmixed r → ∀ w, ∃ f, (s.expandRule [] r ⟨w, []⟩).1 = .ok f) := by
  have exact : ∀ w, s.Fails [] r.pieces ⟨w, []⟩ ↔ s.Revives [] r.pieces ⟨w, []⟩ := by
    intro w
    refine ⟨fun fails => ?_, Revives.fails⟩
    obtain ⟨e, last, h⟩ := fails_iff.mp fails
    exact (revives_of_error (Template.read_furnished loaded) []).2 r.pieces ⟨n, counted⟩ _ e last h
  refine ⟨exact, fun unmixed w => ?_⟩
  cases h : (s.expandRule [] r ⟨w, []⟩).1 with
  | ok f => exact ⟨f, rfl⟩
  | error e => exact absurd ((exact w).mp ⟨e, h⟩) (not_revives unmixed w)

theorem expandRule_of_finite_greeting : ∃ s r,
    Template.read {} "~[hi]\n  hello\n  hi\n" = .ok s ∧ Rule.read "[oh?g] ~[hi]" = .ok r ∧
      s.countRule [] r = .ok (.finite 2) ∧ s.Unmixed r ∧
      ∀ w, ∃ f, (s.expandRule [] r ⟨w, []⟩).1 = .ok f := by
  let s : Store := ⟨⟨[("hi", ⟨"hi", .alias, false,
    [⟨none, none, [⟨[.word "hello"], none⟩, ⟨[.word "hi"], none⟩]⟩]⟩)], by decide⟩, ∅, ∅⟩
  let r : Rule := ⟨[.group [.word "oh"] none ⟨false, none, some "g", none⟩,
    .reference .alias "hi" {}], none⟩
  have loaded : Template.read {} "~[hi]\n  hello\n  hi\n" = .ok s := by cbv
  have read : Rule.read "[oh?g] ~[hi]" = .ok r := by cbv
  have counted : s.countRule [] r = .ok (.finite 2) := by cbv
  have unmixed : s.Unmixed r := by
    have never : ∀ m ∈ s.modifiersFor r, m.inclusion ≠ some 0 := by decide
    exact fun m hm _ _ _ _ _ _ zero => absurd zero (never m hm)
  exact ⟨s, r, loaded, read, counted, unmixed,
    (expandRule_of_finite loaded counted).2 unmixed⟩

/-- The group `g` is decided as there by its piece at a hundred percent, and so a reference at zero
percent is followed that leads nowhere. -/
theorem revived_piece_fails : ∃ s r,
    Template.read {} "~[a]\n  x\n" = .ok s ∧
      Rule.read "[a?g/100] ~[missing?g/0]" = .ok r ∧
      s.countRule [] r = .ok (.finite 1) ∧
      ∀ w, (s.expandRule [] r ⟨w, []⟩).1 = .error (.undeclared .alias "missing") := by
  let s : Store :=
    ⟨⟨[("a", ⟨"a", .alias, false, [⟨none, none, [⟨[.word "x"], none⟩]⟩]⟩)], by decide⟩, ∅, ∅⟩
  let r : Rule := ⟨[.group [.word "a"] none ⟨false, none, some "g", some 100⟩,
    .reference .alias "missing" ⟨false, none, some "g", some 0⟩], none⟩
  have loaded : Template.read {} "~[a]\n  x\n" = .ok s := by cbv
  have read : Rule.read "[a?g/100] ~[missing?g/0]" = .ok r := by cbv
  have counted : s.countRule [] r = .ok (.finite 1) := by cbv
  have fails : ∀ w, (s.expandRule [] r ⟨w, []⟩).1 = .error (.undeclared .alias "missing") := by
    intro w
    cbv
  exact ⟨s, r, loaded, read, counted, fails⟩

end Store
end Phrasebook
