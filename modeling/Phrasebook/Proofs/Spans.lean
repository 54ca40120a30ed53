import Phrasebook.Proofs.Loops

/-!
# Exact numbers of combinations

Counting caps its numbers at 64 bits. Here the number is a natural one, and it is there only where
no cycle is met.

* `Store.Spans`: from a trail, pieces have so many combinations;
* `counted_of_spans`, `exists_spans`: a count is finite just where there is such a number, and is
  this number capped;
* `countRules_eq_finite`: so it is for the rules of a target.
-/

namespace Phrasebook.Store

/-- Going on from a trail, the pieces have exactly so many combinations, and nothing that counting
looks into closes a cycle. A reference has as many as the rules it means have together. -/
inductive Spans (s : Store) : Trail → List Piece → Nat → Prop
  | nil {trail} : Spans s trail [] 1
  | excluded {trail p rest n} (excluded : p.isExcluded = true) (after : Spans s trail rest n) :
      Spans s trail (p :: rest) n
  | word {trail text rest n} (after : Spans s trail rest n) : Spans s trail (.word text :: rest) n
  | group {trail pieces value m rest a b}
      (there : (Piece.group pieces value m).isExcluded = false)
      (inside : Spans s trail pieces a) (after : Spans s trail rest b) :
      Spans s trail (.group pieces value m :: rest) (a * b)
  | reference {trail kind name m rest d rules longer b} {number : Rule → Nat}
      (there : (Piece.reference kind name m).isExcluded = false)
      (resolves : s.resolve ⟨kind, name, m.variation⟩ = .ok (d, rules))
      (steps : trail.step? ⟨kind, name, m.variation⟩ = some longer)
      (each : ∀ r ∈ rules, Spans s longer r.pieces (number r)) (after : Spans s trail rest b) :
      Spans s trail (.reference kind name m :: rest) ((rules.map number).sum * b)

/-- Each of the rules has an exact number of combinations, and this is the sum of them. -/
def SpansRules (s : Store) (trail : Trail) (rules : List Rule) (n : Nat) : Prop :=
  ∃ number : Rule → Nat, (∀ r ∈ rules, s.Spans trail r.pieces (number r)) ∧
    (rules.map number).sum = n

variable {s : Store} {trail : Trail} {rules : List Rule}

/-! ## A number gives a count -/

theorem countPieces_product {p : Piece} {rest : List Piece} {a b : Nat}
    (first : s.countPiece trail p = .ok (.finite (capped a)))
    (others : s.countPieces trail rest = .ok (.finite (capped b))) :
    s.countPieces trail (p :: rest) = .ok (.finite (capped (a * b))) := by
  rw [countPieces_cons, first, others, ← capped_times]
  rfl

theorem countRules_sum {number : Rule → Nat}
    (each : ∀ r ∈ rules, s.countPieces trail r.pieces = .ok (.finite (capped (number r)))) :
    s.countRules trail rules = .ok (.finite (capped (rules.map number).sum)) := by
  induction rules with
  | nil => exact countRules_nil
  | cons r rest ih =>
    have first := each r List.mem_cons_self
    have others := ih fun r hr => each r (List.mem_cons_of_mem _ hr)
    rw [countRules_cons, first, others, List.map_cons, List.sum_cons, ← capped_plus]
    rfl

theorem counted_of_spans {pieces : List Piece} {n : Nat} (h : s.Spans trail pieces n) :
    s.countPieces trail pieces = .ok (.finite (capped n)) := by
  induction h with
  | nil => exact countPieces_nil
  | @excluded _ _ _ n excluded _ ih =>
    rw [← Nat.one_mul n]
    exact countPieces_product (countPiece_excluded excluded) ih
  | @word _ text _ n _ ih =>
    rw [← Nat.one_mul n]
    exact countPieces_product (countPiece_word text) ih
  | group there _ _ inside after =>
    exact countPieces_product ((countPiece_group there).trans inside) after
  | reference there resolves steps _ _ each after =>
    have sum := (countPiece_reference there resolves steps).trans (countRules_sum each)
    exact countPieces_product sum after

/-! ## A finite count comes from a number -/

theorem Spans.before {p : Piece} {rest : List Piece} {a b : Nat} (alone : s.Spans trail [p] a)
    (others : s.Spans trail rest b) : s.Spans trail (p :: rest) (a * b) := by
  cases alone with
  | excluded excluded after =>
    cases after
    rw [Nat.one_mul]
    exact .excluded excluded others
  | word after =>
    cases after
    rw [Nat.one_mul]
    exact .word others
  | group there inside after =>
    cases after
    rw [Nat.mul_one]
    exact .group there inside others
  | reference there resolves steps each after =>
    cases after
    rw [Nat.mul_one]
    exact .reference there resolves steps each others

/-- A number for each rule, put into one function of the rules. -/
theorem exists_number (each : ∀ r ∈ rules, ∃ n, s.Spans trail r.pieces n) :
    ∃ number : Rule → Nat, ∀ r ∈ rules, s.Spans trail r.pieces (number r) := by
  classical
  refine ⟨fun r => if h : ∃ n, s.Spans trail r.pieces n then h.choose else 0, fun r hr => ?_⟩
  dsimp only
  rw [dif_pos (each r hr)]
  exact (each r hr).choose_spec

theorem exists_spans (s : Store) (trail : Trail) :
    (∀ p, (∃ c, s.countPiece trail p = .ok (.finite c)) → ∃ n, s.Spans trail [p] n) ∧
      ∀ pieces, (∃ c, s.countPieces trail pieces = .ok (.finite c)) →
        ∃ n, s.Spans trail pieces n := by
  apply s.walk_induction
    (Q := fun trail p => (∃ c, s.countPiece trail p = .ok (.finite c)) →
      ∃ n, s.Spans trail [p] n)
    (P := fun trail pieces => (∃ c, s.countPieces trail pieces = .ok (.finite c)) →
      ∃ n, s.Spans trail pieces n)
  case word =>
    intro trail text _
    exact ⟨1, .word .nil⟩
  case group =>
    intro trail pieces value m body finite
    cases there : (Piece.group pieces value m).isExcluded with
    | true => exact ⟨1, .excluded there .nil⟩
    | false =>
      rw [countPiece_group there] at finite
      obtain ⟨n, inside⟩ := body finite
      exact ⟨n * 1, .group there inside .nil⟩
  case reference =>
    rintro trail kind name m bodies ⟨c, finite⟩
    cases there : (Piece.reference kind name m).isExcluded with
    | true => exact ⟨1, .excluded there .nil⟩
    | false =>
      obtain ⟨d, rules, longer, resolves, steps, inside⟩ := finite_of_reference there finite
      obtain ⟨number, each⟩ := exists_number fun r hr =>
        bodies d rules longer resolves steps r hr (inside r hr)
      exact ⟨(rules.map number).sum * 1, .reference there resolves steps each .nil⟩
  case nil =>
    intro trail _
    exact ⟨1, .nil⟩
  case cons =>
    rintro trail p rest one others ⟨c, finite⟩
    obtain ⟨first, after⟩ := finite_of_cons finite
    obtain ⟨a, alone⟩ := one first
    obtain ⟨b, later⟩ := others after
    exact ⟨a * b, alone.before later⟩

/-- A count of rules is finite where they have an exact number of combinations, and is this number
capped at 64 bits. -/
theorem countRules_eq_finite {c : UInt64} :
    s.countRules trail rules = .ok (.finite c) ↔
      ∃ n, s.SpansRules trail rules n ∧ c = capped n := by
  constructor
  · intro finite
    obtain ⟨number, each⟩ := exists_number fun r hr =>
      (exists_spans s trail).2 r.pieces (finite_of_mem finite hr)
    have counted := countRules_sum fun r hr => counted_of_spans (each r hr)
    rw [finite] at counted
    cases counted
    exact ⟨_, ⟨number, each, rfl⟩, rfl⟩
  · rintro ⟨n, ⟨number, each, rfl⟩, rfl⟩
    exact countRules_sum fun r hr => counted_of_spans (each r hr)

end Phrasebook.Store
