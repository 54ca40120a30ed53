import Mathlib.Algebra.GroupWithZero.Nat
import Phrasebook.Proofs.Calls
import Phrasebook.Proofs.Failures
import Phrasebook.Proofs.Revival
import Phrasebook.Proofs.Tally

/-!
# Unbounded counts

Counting walks along one path at a time and takes a target that is on the path already for a cycle.
Where every reference that it comes to resolves, this finds just the cycles that can be reached.

* `Store.Loops`: from the pieces a target is reached that leads back to itself;
* `loops_of_unbounded`, `not_loops_of_finite`: what an unbounded and what a finite count say of it,
  each by the walk that counts;
* `Piece.ways`, `Store.Weighs`: numbers of combinations, as sums over rules and products over
  pieces. `finite_eq_ways`: a finite count is such a number, capped at 64 bits;
* `Store.ways`: the numbers within a depth. It does not matter which, once the depth is enough;
* `countRule_of_resolved`: how counting comes out, for every rule whose references resolve.
-/

namespace Phrasebook

open Relation

namespace Piece

/-- Counting looks into the piece. -/
def Counted (p : Piece) : Prop := p.isExcluded = false

mutual

/-- The number of combinations of a piece, where `weight` is that of each target. -/
def ways (weight : Target → Nat) (p : Piece) : Nat :=
  if p.isExcluded then 1
  else
    match p with
    | word _ => 1
    | group pieces _ _ => waysOf weight pieces
    | reference kind name m => weight ⟨kind, name, m.variation⟩

/-- The product over the pieces. -/
def waysOf (weight : Target → Nat) : List Piece → Nat
  | [] => 1
  | p :: rest => p.ways weight * waysOf weight rest

end

section
variable {weight : Target → Nat} {m : Modifiers}

theorem ways_excluded {p : Piece} (h : p.isExcluded = true) : p.ways weight = 1 := by
  rw [ways.eq_def, if_pos h]

theorem ways_word (text : String) : (word text).ways weight = 1 := by
  simp [ways]

theorem ways_group {pieces : List Piece} {value : Option String}
    (h : (group pieces value m).isExcluded = false) :
    (group pieces value m).ways weight = waysOf weight pieces := by
  simp [ways, h]

theorem ways_reference {kind : Kind} {name : String}
    (h : (reference kind name m).isExcluded = false) :
    (reference kind name m).ways weight = weight ⟨kind, name, m.variation⟩ := by
  simp [ways, h]

end
end Piece

namespace Store

/-- From the pieces, as counting goes, a target is reached that can reach itself. -/
def Loops (s : Store) (pieces : List Piece) : Prop :=
  ∃ t, s.Reaches Piece.Counted pieces t ∧ TransGen (s.Leads Piece.Counted) t t

/-- Everything that counting can come to resolves. -/
def Sure (s : Store) (pieces : List Piece) : Prop :=
  ∀ t, s.Reaches Piece.Counted pieces t → s.Resolves t

variable {s : Store} {trail : Trail} {p : Piece} {rest pieces : List Piece} {t : Target}
  {kind : Kind} {name : String} {m : Modifiers} {value : Option String}

/-! ## Loops and where they are -/

theorem loops_cons : s.Loops (p :: rest) ↔ s.Loops [p] ∨ s.Loops rest := by
  have cons : ∀ t, s.Reaches Piece.Counted (p :: rest) t ↔
      s.Reaches Piece.Counted [p] t ∨ s.Reaches Piece.Counted rest t := fun _ => reaches_cons
  simp only [Loops, cons, or_and_right, exists_or]

theorem loops_group (there : (Piece.group pieces value m).Counted) :
    s.Loops [.group pieces value m] ↔ s.Loops pieces := by
  simp only [Loops, reaches_group, there, true_and]

theorem not_loops_excluded (excluded : p.isExcluded = true) : ¬ s.Loops [p] := by
  rintro ⟨t, reaches, _⟩
  cases p with
  | word text => exact reaches_word reaches
  | group pieces value m =>
    exact absurd (reaches_group.mp reaches).1 (by simp [Piece.Counted, excluded])
  | reference kind name m =>
    exact absurd (reaches_reference.mp reaches).1 (by simp [Piece.Counted, excluded])

/-- A loop behind a reference lies behind one of the rules it means: also one through its own
target, which a rule leads back to. -/
theorem loops_reference (there : (Piece.reference kind name m).Counted) {d : Definition}
    {rules : List Rule} (resolves : s.resolve ⟨kind, name, m.variation⟩ = .ok (d, rules)) :
    s.Loops [.reference kind name m] ↔ ∃ r ∈ rules, s.Loops r.pieces := by
  constructor
  · rintro ⟨t, reaches, loop⟩
    have further := (reaches_reference.mp reaches).2
    have leads : TransGen (s.Leads Piece.Counted) ⟨kind, name, m.variation⟩ t :=
      TransGen.trans_right further loop
    obtain ⟨d', rules', resolves', r, hr, inside⟩ := transGen_iff.mp leads
    rw [resolves] at resolves'
    cases resolves'
    exact ⟨r, hr, t, inside, loop⟩
  · rintro ⟨r, hr, t, inside, loop⟩
    have start : s.Reaches Piece.Counted [.reference kind name m] ⟨kind, name, m.variation⟩ :=
      reaches_reference.mpr ⟨there, .refl⟩
    exact ⟨t, start.inRule resolves hr inside, loop⟩

theorem sure_of_closed (closed : s.Closed) (grounded : s.Grounded pieces) : s.Sure pieces :=
  fun _ reaches => closed.reaches grounded reaches

/-! ## Counting succeeds -/

theorem counted_rules {rules : List Rule}
    (h : ∀ r ∈ rules, ∃ c, s.countPieces trail r.pieces = .ok c) :
    ∃ c, s.countRules trail rules = .ok c := by
  induction rules with
  | nil => exact ⟨_, countRules_nil⟩
  | cons r rest ih =>
    obtain ⟨first, counted⟩ := h r List.mem_cons_self
    obtain ⟨others, counted'⟩ := ih fun r hr => h r (List.mem_cons_of_mem _ hr)
    exact ⟨first.plus others, by rw [countRules_cons, counted, counted']; rfl⟩

theorem counted_of_sure (s : Store) (trail : Trail) :
    (∀ p, s.Sure [p] → ∃ c, s.countPiece trail p = .ok c) ∧
      ∀ pieces, s.Sure pieces → ∃ c, s.countPieces trail pieces = .ok c := by
  have total : ∀ pieces, s.Sure pieces → ∃ c, s.countPieces trail pieces = .ok c := by
    intro pieces sure
    cases counted : s.countPieces trail pieces with
    | ok c => exact ⟨c, rfl⟩
    | error e =>
      obtain ⟨later, t, visits, unresolved⟩ := s.countPieces_halts trail pieces e counted
      obtain ⟨d, rules, resolves⟩ := resolves_iff.mp (sure t visits.reaches)
      rw [resolves] at unresolved
      cases unresolved
  refine ⟨fun p sure => ?_, total⟩
  obtain ⟨c, counted⟩ := total [p] sure
  rw [countPieces_cons] at counted
  obtain ⟨first, alone, _⟩ := bind_eq_ok.mp counted
  exact ⟨first, alone⟩

/-! ## Unbounded counts -/

theorem unbounded_of_cons (h : s.countPieces trail (p :: rest) = .ok .unbounded) :
    s.countPiece trail p = .ok .unbounded ∨ s.countPieces trail rest = .ok .unbounded := by
  rw [countPieces_cons] at h
  obtain ⟨first, counted, h⟩ := bind_eq_ok.mp h
  obtain ⟨others, counted', h⟩ := bind_eq_ok.mp h
  cases first <;> cases others <;> simp_all [Combinations.times, pure, Except.pure]

theorem unbounded_of_rules {rules : List Rule}
    (h : s.countRules trail rules = .ok .unbounded) :
    ∃ r ∈ rules, s.countPieces trail r.pieces = .ok .unbounded := by
  induction rules with
  | nil =>
    rw [countRules_nil] at h
    cases h
  | cons r rest ih =>
    rw [countRules_cons] at h
    obtain ⟨first, counted, h⟩ := bind_eq_ok.mp h
    obtain ⟨others, counted', h⟩ := bind_eq_ok.mp h
    cases first with
    | unbounded => exact ⟨r, List.mem_cons_self, counted⟩
    | finite x =>
      cases others with
      | finite y => cases h
      | unbounded =>
        obtain ⟨r, hr, found⟩ := ih counted'
        exact ⟨r, List.mem_cons_of_mem _ hr, found⟩

/-- The trail is a path: what is on it leads to whatever the pieces refer to. -/
def Along (s : Store) (trail : Trail) (pieces : List Piece) : Prop :=
  ∀ x ∈ trail, ∀ t, Piece.Refers Piece.Counted pieces t → TransGen (s.Leads Piece.Counted) x t

theorem Along.inRule (h : s.Along trail [.reference kind name m])
    (there : (Piece.reference kind name m).Counted) {d : Definition} {rules : List Rule}
    (resolves : s.resolve ⟨kind, name, m.variation⟩ = .ok (d, rules)) {longer : Trail}
    (steps : trail.step? ⟨kind, name, m.variation⟩ = some longer) {r : Rule} (hr : r ∈ rules) :
    s.Along longer r.pieces := by
  intro x hx t refers
  have leads : s.Leads Piece.Counted ⟨kind, name, m.variation⟩ t :=
    ⟨d, rules, resolves, r, hr, refers⟩
  rw [Trail.eq_cons_of_step? steps] at hx
  rcases List.mem_cons.mp hx with rfl | hx
  · exact .single leads
  · exact (h x hx _ (.reference there)).tail leads

theorem mem_of_step?_eq_none (steps : trail.step? t = none) : t ∈ trail := by
  unfold Trail.step? at steps
  split at steps
  · next there => exact there
  · cases steps

/-- Where counting says that there is no bound, it went along a path and came back to it. -/
theorem loops_of_unbounded (s : Store) (trail : Trail) :
    (∀ p, s.Along trail [p] → s.countPiece trail p = .ok .unbounded → s.Loops [p]) ∧
      ∀ pieces, s.Along trail pieces → s.countPieces trail pieces = .ok .unbounded →
        s.Loops pieces := by
  apply s.walk_induction
    (Q := fun trail p => s.Along trail [p] → s.countPiece trail p = .ok .unbounded → s.Loops [p])
    (P := fun trail pieces => s.Along trail pieces →
      s.countPieces trail pieces = .ok .unbounded → s.Loops pieces)
  case word =>
    intro trail text _ h
    rw [countPiece_word] at h
    cases h
  case group =>
    intro trail pieces value m body along h
    cases there : (Piece.group pieces value m).isExcluded with
    | true =>
      rw [countPiece_excluded there] at h
      cases h
    | false =>
      rw [countPiece_group there] at h
      exact (loops_group there).mpr
        (body (fun x hx t refers => along x hx t (.inGroup there refers)) h)
  case reference =>
    intro trail kind name m bodies along h
    cases there : (Piece.reference kind name m).isExcluded with
    | true =>
      rw [countPiece_excluded there] at h
      cases h
    | false =>
      cases resolves : s.resolve ⟨kind, name, m.variation⟩ with
      | error e =>
        rw [countPiece_unresolved there resolves] at h
        cases h
      | ok found =>
        obtain ⟨d, rules⟩ := found
        cases steps : trail.step? ⟨kind, name, m.variation⟩ with
        | none =>
          have back := along _ (mem_of_step?_eq_none steps) _ (.reference there)
          exact ⟨_, reaches_reference.mpr ⟨there, .refl⟩, back⟩
        | some longer =>
          rw [countPiece_reference there resolves steps] at h
          obtain ⟨r, hr, unbounded⟩ := unbounded_of_rules h
          have inside := bodies d rules longer resolves steps r hr
            (along.inRule there resolves steps hr) unbounded
          exact (loops_reference there resolves).mpr ⟨r, hr, inside⟩
  case nil =>
    intro trail _ h
    rw [countPieces_nil] at h
    cases h
  case cons =>
    intro trail p rest one others along h
    rcases unbounded_of_cons h with first | after
    · refine loops_cons.mpr (.inl (one (fun x hx t refers => along x hx t ?_) first))
      exact Piece.refers_cons.mpr (.inl refers)
    · exact loops_cons.mpr (.inr (others (fun x hx t refers => along x hx t (.later refers)) after))

/-- A walk that comes back to nothing of its path has no loop before it: behind a target there
would be one that starts from it, and so one behind its rules. -/
theorem not_loops_of_finite (s : Store) (trail : Trail) :
    (∀ p, (∃ n, s.countPiece trail p = .ok (.finite n)) → ¬ s.Loops [p]) ∧
      ∀ pieces, (∃ n, s.countPieces trail pieces = .ok (.finite n)) → ¬ s.Loops pieces := by
  apply s.walk_induction
    (Q := fun trail p => (∃ n, s.countPiece trail p = .ok (.finite n)) → ¬ s.Loops [p])
    (P := fun trail pieces => (∃ n, s.countPieces trail pieces = .ok (.finite n)) →
      ¬ s.Loops pieces)
  case word =>
    rintro trail text _ ⟨t, reaches, _⟩
    exact reaches_word reaches
  case group =>
    intro trail pieces value m body finite
    cases there : (Piece.group pieces value m).isExcluded with
    | true => exact not_loops_excluded there
    | false =>
      rw [countPiece_group there] at finite
      exact mt (loops_group there).mp (body finite)
  case reference =>
    rintro trail kind name m bodies ⟨n, finite⟩
    cases there : (Piece.reference kind name m).isExcluded with
    | true => exact not_loops_excluded there
    | false =>
      obtain ⟨d, rules, longer, resolves, steps, inside⟩ := finite_of_reference there finite
      intro loops
      obtain ⟨r, hr, loop⟩ := (loops_reference there resolves).mp loops
      exact bodies d rules longer resolves steps r hr (inside r hr) loop
  case nil =>
    rintro trail _ ⟨t, ⟨_, refers, _⟩, _⟩
    cases refers
  case cons =>
    rintro trail p rest one others ⟨n, finite⟩
    obtain ⟨first, after⟩ := finite_of_cons finite
    exact fun loops => (loops_cons.mp loops).elim (one first) (others after)

/-! ## Finite counts -/

/-- The number of combinations of a target: the sum over its rules. -/
def waysTo (s : Store) (weight : Target → Nat) (t : Target) : Nat :=
  match s.resolve t with
  | .ok (_, rules) => (rules.map fun r => Piece.waysOf weight r.pieces).sum
  | .error _ => 0

theorem waysTo_eq {weight : Target → Nat} {d : Definition} {rules : List Rule}
    (resolves : s.resolve t = .ok (d, rules)) :
    s.waysTo weight t = (rules.map fun r => Piece.waysOf weight r.pieces).sum := by
  rw [waysTo, resolves]

/-- Each target that counting can come to has the sum over its rules as its weight. -/
def Weighs (s : Store) (weight : Target → Nat) (pieces : List Piece) : Prop :=
  ∀ t, s.Reaches Piece.Counted pieces t → weight t = s.waysTo weight t

variable {weight : Target → Nat}

theorem Weighs.head (h : s.Weighs weight (p :: rest)) : s.Weighs weight [p] :=
  fun t reaches => h t (reaches_cons.mpr (.inl reaches))

theorem Weighs.tail (h : s.Weighs weight (p :: rest)) : s.Weighs weight rest :=
  fun t reaches => h t (reaches_cons.mpr (.inr reaches))

theorem finite_rules {rules : List Rule} {number : Rule → Nat} {n : UInt64}
    (counted : s.countRules trail rules = .ok (.finite n))
    (each : ∀ r ∈ rules, ∀ x, s.countPieces trail r.pieces = .ok (.finite x) →
      x = capped (number r)) : n = capped (rules.map number).sum := by
  induction rules generalizing n with
  | nil =>
    rw [countRules_nil] at counted
    cases counted
    rfl
  | cons r rest ih =>
    rw [countRules_cons] at counted
    obtain ⟨first, one, counted⟩ := bind_eq_ok.mp counted
    obtain ⟨others, more, counted⟩ := bind_eq_ok.mp counted
    have sum : first.plus others = .finite n := Except.ok.inj counted
    obtain ⟨⟨x, rfl⟩, ⟨y, rfl⟩⟩ := Combinations.plus_eq_finite sum
    have head := each r List.mem_cons_self x one
    have tail := ih more fun r hr => each r (List.mem_cons_of_mem _ hr)
    cases sum
    rw [head, tail, capped_plus, List.map_cons, List.sum_cons]

/-- A finite count is the capped number of combinations, as any weighing of the targets has it. -/
theorem finite_eq_ways (s : Store) (trail : Trail) :
    (∀ p, ∀ n, s.countPiece trail p = .ok (.finite n) → s.Weighs weight [p] →
      n = capped (p.ways weight)) ∧
      ∀ pieces, ∀ n, s.countPieces trail pieces = .ok (.finite n) → s.Weighs weight pieces →
        n = capped (Piece.waysOf weight pieces) := by
  apply s.walk_induction
    (Q := fun trail p => ∀ n, s.countPiece trail p = .ok (.finite n) → s.Weighs weight [p] →
      n = capped (p.ways weight))
    (P := fun trail pieces => ∀ n, s.countPieces trail pieces = .ok (.finite n) →
      s.Weighs weight pieces → n = capped (Piece.waysOf weight pieces))
  case word =>
    intro trail text n h _
    rw [countPiece_word] at h
    cases h
    rw [Piece.ways_word]
    rfl
  case group =>
    intro trail pieces value m body n h weighs
    cases there : (Piece.group pieces value m).isExcluded with
    | true =>
      rw [countPiece_excluded there] at h
      cases h
      rw [Piece.ways_excluded there]
      rfl
    | false =>
      rw [countPiece_group there] at h
      rw [Piece.ways_group there]
      exact body n h fun t reaches => weighs t (reaches_group.mpr ⟨there, reaches⟩)
  case reference =>
    intro trail kind name m bodies n h weighs
    cases there : (Piece.reference kind name m).isExcluded with
    | true =>
      rw [countPiece_excluded there] at h
      cases h
      rw [Piece.ways_excluded there]
      rfl
    | false =>
      obtain ⟨d, rules, longer, resolves, steps, -⟩ := finite_of_reference there h
      have start : s.Reaches Piece.Counted [.reference kind name m] ⟨kind, name, m.variation⟩ :=
        reaches_reference.mpr ⟨there, .refl⟩
      rw [countPiece_reference there resolves steps] at h
      rw [Piece.ways_reference there, weighs _ start, waysTo_eq resolves]
      exact finite_rules h fun r hr x counted =>
        bodies d rules longer resolves steps r hr x counted fun t inside =>
          weighs t (start.inRule resolves hr inside)
  case nil =>
    intro trail n h _
    rw [countPieces_nil] at h
    cases h
    rfl
  case cons =>
    intro trail p rest one others n h weighs
    rw [countPieces_cons] at h
    obtain ⟨first, head, h⟩ := bind_eq_ok.mp h
    obtain ⟨after, tail, h⟩ := bind_eq_ok.mp h
    have product : first.times after = .finite n := Except.ok.inj h
    obtain ⟨⟨x, rfl⟩, ⟨y, rfl⟩⟩ := Combinations.times_eq_finite product
    cases product
    rw [one x head weighs.head, others y tail weighs.tail, capped_times, Piece.waysOf]

/-! ## A weighing -/

/-- The number of combinations of a target along at most so many references. -/
def ways (s : Store) : Nat → Target → Nat
  | 0, _ => 0
  | depth + 1, t => s.waysTo (s.ways depth) t

/-- Where a count is finite, the walk ends within the room of the trail, and more depth than that
changes nothing. -/
theorem ways_stable (s : Store) (trail : Trail) :
    (∀ p, ∀ depth other, (∃ n, s.countPiece trail p = .ok (.finite n)) → s.room trail ≤ depth →
      s.room trail ≤ other → p.ways (s.ways depth) = p.ways (s.ways other)) ∧
      ∀ pieces, ∀ depth other, (∃ n, s.countPieces trail pieces = .ok (.finite n)) →
        s.room trail ≤ depth → s.room trail ≤ other →
        Piece.waysOf (s.ways depth) pieces = Piece.waysOf (s.ways other) pieces := by
  apply s.walk_induction
    (Q := fun trail p => ∀ depth other, (∃ n, s.countPiece trail p = .ok (.finite n)) →
      s.room trail ≤ depth → s.room trail ≤ other → p.ways (s.ways depth) = p.ways (s.ways other))
    (P := fun trail pieces => ∀ depth other, (∃ n, s.countPieces trail pieces = .ok (.finite n)) →
      s.room trail ≤ depth → s.room trail ≤ other →
      Piece.waysOf (s.ways depth) pieces = Piece.waysOf (s.ways other) pieces)
  case word =>
    intro trail text depth other _ _ _
    rw [Piece.ways_word, Piece.ways_word]
  case group =>
    intro trail pieces value m body depth other finite enough enough'
    cases there : (Piece.group pieces value m).isExcluded with
    | true => rw [Piece.ways_excluded there, Piece.ways_excluded there]
    | false =>
      rw [countPiece_group there] at finite
      rw [Piece.ways_group there, Piece.ways_group there]
      exact body depth other finite enough enough'
  case reference =>
    rintro trail kind name m bodies depth other ⟨n, finite⟩ enough enough'
    cases there : (Piece.reference kind name m).isExcluded with
    | true => rw [Piece.ways_excluded there, Piece.ways_excluded there]
    | false =>
      obtain ⟨d, rules, longer, resolves, steps, inside⟩ := finite_of_reference there finite
      obtain ⟨left, rfl, less⟩ := room_left enough resolves steps
      obtain ⟨left', rfl, less'⟩ := room_left enough' resolves steps
      rw [Piece.ways_reference there, Piece.ways_reference there, ways, ways,
        waysTo_eq resolves, waysTo_eq resolves]
      refine congrArg List.sum (List.map_congr_left fun r hr => ?_)
      exact bodies d rules longer resolves steps r hr left left' (inside r hr) less less'
  case nil =>
    intro trail depth other _ _ _
    rfl
  case cons =>
    rintro trail p rest one others depth other ⟨n, finite⟩ enough enough'
    obtain ⟨first, after⟩ := finite_of_cons finite
    rw [Piece.waysOf, Piece.waysOf, one depth other first enough enough',
      others depth other after enough enough']

theorem along_nil : s.Along [] pieces :=
  fun _ there => absurd there List.not_mem_nil

theorem finite_of_not_loops (sure : s.Sure [p]) (straight : ¬ s.Loops [p]) :
    ∃ n, s.countPiece [] p = .ok (.finite n) := by
  obtain ⟨c, counted⟩ := (counted_of_sure s []).1 p sure
  cases c with
  | finite n => exact ⟨n, counted⟩
  | unbounded => exact absurd ((loops_of_unbounded s []).1 p along_nil counted) straight

/-- As deep as the store has targets, the numbers are a weighing. -/
theorem weighs_ways (sure : s.Sure pieces) (straight : ¬ s.Loops pieces) :
    s.Weighs (s.ways (s.room [])) pieces := by
  intro t reaches
  -- counted alone, the target has a finite number, which one step more does not change
  let p : Piece := .reference t.kind t.name { variation := t.variation }
  have there : p.Counted := rfl
  have onward : ∀ u, s.Reaches Piece.Counted [p] u → s.Reaches Piece.Counted pieces u :=
    fun u h => reaches.trans (reaches_reference.mp h).2
  have finite := finite_of_not_loops (fun u h => sure u (onward u h))
    fun ⟨u, h, loop⟩ => straight ⟨u, onward u h, loop⟩
  have stable := (ways_stable s []).1 p (s.room []) (s.room [] + 1) finite (Nat.le_refl _)
    (Nat.le_succ _)
  rwa [Piece.ways_reference there, Piece.ways_reference there] at stable

/-- **A count is unbounded where a cycle can be reached.** Where everything that counting can come
to resolves, a rule has no bound just if a target is reached that can reach itself. Otherwise its
count is the number of its combinations, capped at 64 bits: the product over its pieces, in which a
target weighs the sum over its rules. The targets that are reached do have such weights. -/
theorem countRule_of_resolved {s : Store} {r : Rule} (sure : s.Sure r.pieces) :
    (s.countRule [] r = .ok .unbounded ↔ s.Loops r.pieces) ∧
      (¬ s.Loops r.pieces →
        (∃ weight, s.Weighs weight r.pieces) ∧
          ∀ weight, s.Weighs weight r.pieces →
            s.countRule [] r = .ok (.finite (capped (Piece.waysOf weight r.pieces)))) := by
  obtain ⟨c, counted⟩ := (counted_of_sure s []).2 r.pieces sure
  rw [countRule, counted]
  cases c with
  | unbounded =>
    have loops := (loops_of_unbounded s []).2 r.pieces along_nil counted
    exact ⟨by simp [loops], fun straight => absurd loops straight⟩
  | finite n =>
    have straight := (not_loops_of_finite s []).2 r.pieces ⟨n, counted⟩
    refine ⟨by simp [straight], fun _ => ⟨⟨_, weighs_ways sure straight⟩, ?_⟩⟩
    intro weight weighs
    rw [← (finite_eq_ways s []).2 r.pieces n counted weighs]

/-- A variation leads to its definition as a whole, and that again to itself: the first rule has no
bound. The second one has two combinations for each of its references. -/
theorem countRule_of_resolved_noise : ∃ s : Store, ∃ looped straight : Rule,
    s.Sure looped.pieces ∧ s.countRule [] looped = .ok .unbounded ∧ s.Loops looped.pieces ∧
    s.Sure straight.pieces ∧ ¬ s.Loops straight.pieces ∧
    (∃ weight, s.Weighs weight straight.pieces) ∧
    ∀ weight, s.Weighs weight straight.pieces →
      s.countRule [] straight = .ok (.finite (capped (Piece.waysOf weight straight.pieces))) := by
  let s : Store := ⟨⟨[
    ("noise", ⟨"noise", .alias, false, [⟨some "loud", none, [⟨[.word "hey"], none⟩,
      ⟨[.reference .alias "noise" {}, .word "hey"], none⟩]⟩]⟩),
    ("who", ⟨"who", .alias, false, [⟨none, none, [⟨[.word "bob"], none⟩,
      ⟨[.word "ann"], none⟩]⟩]⟩)], by decide⟩, ∅, ∅⟩
  let looped : Rule := ⟨[.word "oh", .reference .alias "noise" { variation := some "loud" }], none⟩
  let straight : Rule := ⟨[.reference .alias "who" {}, .word "and",
    .group [.reference .alias "who" {}] none { group := some "" }], none⟩
  have closed : s.Closed := dangling_eq_nil_iff.mp (by decide)
  have sure : ∀ r ∈ [looped, straight], s.Sure r.pieces := by
    have known : ∀ r ∈ [looped, straight], ∀ t ∈ r.targets, s.checkTarget .alias "" t = none := by
      decide
    exact fun r hr => sure_of_closed closed fun t refers =>
      checkTarget_eq_none.mp (known r hr t ((Piece.mem_targetsOf r.pieces).mpr refers))
  have sureLooped := sure looped (by simp)
  have sureStraight := sure straight (by simp)
  have unbounded : s.countRule [] looped = .ok .unbounded := by cbv
  have bounded : s.countRule [] straight = .ok (.finite 4) := by cbv
  have noLoop : ¬ s.Loops straight.pieces := by
    rw [← (countRule_of_resolved sureStraight).1, bounded]
    simp
  exact ⟨s, looped, straight, sureLooped, unbounded,
    (countRule_of_resolved sureLooped).1.mp unbounded, sureStraight, noLoop,
    (countRule_of_resolved sureStraight).2 noLoop⟩

end Store
end Phrasebook
