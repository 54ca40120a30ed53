import Phrasebook.Proofs.Walk

/-!
# Counting is the length of the listing

Counting multiplies and adds numbers capped at 64 bits, goes on past a cycle, and makes no texts.
Listing makes every text and stops at the first cycle.

* `Tally`: how a count and a listing of the same thing go together;
* `Tally.times`, `Tally.plus`: products and sums keep them together, the cap and the order of errors
  included;
* `countRule_listRule`: so they agree on every rule of every store, on every trail.
-/

namespace Phrasebook

theorem capped_toNat (n : UInt64) : capped n.toNat = n := by
  apply UInt64.toNat_inj.mp
  have small := n.toNat_lt
  rw [toNat_capped]
  omega

theorem capped_times (a b : Nat) :
    capped ((capped a).toNat * (capped b).toNat) = capped (a * b) := by
  apply UInt64.toNat_inj.mp
  simp only [toNat_capped]
  rcases Nat.eq_zero_or_pos a with rfl | ha
  · simp
  rcases Nat.eq_zero_or_pos b with rfl | hb
  · simp
  by_cases small : a ≤ 0xFFFFFFFFFFFFFFFF ∧ b ≤ 0xFFFFFFFFFFFFFFFF
  · rw [Nat.min_eq_left small.1, Nat.min_eq_left small.2]
  · -- a factor at the cap keeps the product there, as the other one is at least one
    have cap : ∀ x y : Nat, 0 < y → 0xFFFFFFFFFFFFFFFF ≤ x → 0xFFFFFFFFFFFFFFFF ≤ x * y :=
      fun x y hy hx => Nat.le_trans hx (Nat.le_mul_of_pos_right x hy)
    rw [Nat.min_eq_right (a := a * b), Nat.min_eq_right]
    · rcases Nat.lt_or_ge 0xFFFFFFFFFFFFFFFF a with big | _
      · rw [Nat.min_eq_right (a := a) (by omega)]
        exact cap _ _ (by omega) (Nat.le_refl _)
      · rw [Nat.min_eq_right (a := b) (by omega), Nat.mul_comm]
        exact cap _ _ (by omega) (Nat.le_refl _)
    · rcases Nat.lt_or_ge 0xFFFFFFFFFFFFFFFF a with big | _
      · exact cap a b hb (by omega)
      · exact Nat.mul_comm a b ▸ cap b a ha (by omega)

theorem capped_plus (a b : Nat) :
    capped ((capped a).toNat + (capped b).toNat) = capped (a + b) := by
  apply UInt64.toNat_inj.mp
  simp only [toNat_capped]
  omega

/-- Capped numbers can be held against every limit but the cap, which all of them fit. -/
theorem Combinations.fits_capped {n : Nat} {limit : UInt64} :
    (finite (capped n)).fits limit = true ↔ n ≤ limit.toNat ∨ limit = 0xFFFFFFFFFFFFFFFF := by
  have bound := limit.toNat_lt
  have top : limit = 0xFFFFFFFFFFFFFFFF ↔ limit.toNat = 0xFFFFFFFFFFFFFFFF :=
    UInt64.toNat_inj.symm
  rw [fits, decide_eq_true_eq, UInt64.le_iff_toNat_le, toNat_capped, top]
  omega

/-- A count beside a listing. Past its first cycle a listing sees nothing, so a count can still
find an error there. -/
inductive Tally : Outcome Combinations → Outcome (List Fragment) → Prop where
  | finite (fragments : List Fragment) :
      Tally (.ok (.finite (capped fragments.length))) (.ok fragments)
  | unbounded (chain : List Target) : Tally (.ok .unbounded) (.error (.cycle chain))
  | failed (e : Error) : Tally (.error e) (.error e)
  | behindCycle (e : Error) (chain : List Target) : Tally (.error e) (.error (.cycle chain))

theorem Tally.one (f : Fragment) : Tally (.ok (.finite 1)) (.ok [f]) :=
  .finite [f]

/-- An operation on counts that goes with one on listings keeps them together. -/
theorem Tally.both {op : Combinations → Combinations → Combinations}
    (join : List Fragment → List Fragment → List Fragment)
    (sizes : ∀ fs gs, op (.finite (capped fs.length)) (.finite (capped gs.length)) =
      .finite (capped (join fs gs).length))
    (left : ∀ c, op .unbounded c = .unbounded) (right : ∀ n, op (.finite n) .unbounded = .unbounded)
    {a b : Outcome Combinations} {x y : Outcome (List Fragment)}
    (first : Tally a x) (others : Tally b y) :
    Tally (do return op (← a) (← b)) (do return join (← x) (← y)) := by
  cases first with
  | finite fs =>
    cases others with
    | finite gs =>
      change Tally (.ok (op _ _)) _
      rw [sizes]
      exact .finite (join fs gs)
    | unbounded chain =>
      change Tally (.ok (op _ _)) _
      rw [right]
      exact .unbounded chain
    | failed e => exact .failed e
    | behindCycle e chain => exact .behindCycle e chain
  | unbounded chain =>
    -- the listing has stopped, whatever counting still finds
    cases others with
    | finite gs =>
      change Tally (.ok (op _ _)) _
      rw [left]
      exact .unbounded chain
    | unbounded later =>
      change Tally (.ok (op _ _)) _
      rw [left]
      exact .unbounded chain
    | failed e => exact .behindCycle e chain
    | behindCycle e later => exact .behindCycle e chain
  | failed e => exact .failed e
  | behindCycle e chain => exact .behindCycle e chain

theorem Store.length_combine (first others : List Fragment) :
    (combine first others).length = first.length * others.length := by
  simp [combine, List.length_flatMap, List.map_const']

theorem Tally.times {a b : Outcome Combinations} {x y : Outcome (List Fragment)}
    (first : Tally a x) (others : Tally b y) :
    Tally (do return (← a).times (← b)) (do return Store.combine (← x) (← y)) := by
  refine Tally.both Store.combine ?_ (fun _ => rfl) (fun _ => rfl) first others
  intro fs gs
  simp only [Combinations.times, capped_times, Store.length_combine]

/-- The fragments of a first rule, changed one by one, before those of others. -/
theorem Tally.plus (change : Fragment → Fragment) {a b : Outcome Combinations}
    {x y : Outcome (List Fragment)} (first : Tally a x) (others : Tally b y) :
    Tally (do return (← a).plus (← b)) (do return (← x).map change ++ (← y)) := by
  refine Tally.both (fun fs gs => fs.map change ++ gs) ?_ (fun _ => rfl) (fun _ => rfl) first others
  intro fs gs
  simp only [Combinations.plus, capped_plus, List.length_append, List.length_map]

namespace Store

theorem countRules_tally {s : Store} {trail : Trail} (kind : Kind) (name : String)
    {rules : List Rule}
    (h : ∀ r ∈ rules, Tally (s.countPieces trail r.pieces) (s.listPieces trail r.pieces)) :
    Tally (s.countRules trail rules) (s.listRules trail kind name rules) := by
  induction rules with
  | nil =>
    rw [countRules_nil, listRules_nil]
    exact .finite []
  | cons r rest ih =>
    rw [countRules_cons, listRules_cons]
    have first := h r List.mem_cons_self
    have others := ih fun r hr => h r (List.mem_cons_of_mem _ hr)
    exact first.plus _ others

theorem countPieces_tally (s : Store) (trail : Trail) (pieces : List Piece) :
    Tally (s.countPieces trail pieces) (s.listPieces trail pieces) := by
  refine (walk_induction s (Q := fun trail p => Tally (s.countPiece trail p) (s.listPiece trail p))
    (P := fun trail ps => Tally (s.countPieces trail ps) (s.listPieces trail ps))
    ?word ?group ?reference ?nil ?cons trail).2 pieces
  case word =>
    intro trail text
    rw [countPiece_word, listPiece_word]
    exact .one _
  case group =>
    intro trail pieces value m ih
    cases h : (Piece.group pieces value m).isExcluded with
    | true =>
      rw [countPiece_excluded h, listPiece_excluded h]
      exact .one _
    | false =>
      rw [countPiece_group h, listPiece_group h]
      exact ih
  case reference =>
    intro trail kind name m ih
    cases h : (Piece.reference kind name m).isExcluded with
    | true =>
      rw [countPiece_excluded h, listPiece_excluded h]
      exact .one _
    | false =>
      cases resolves : s.resolve ⟨kind, name, m.variation⟩ with
      | error e =>
        rw [countPiece_unresolved h resolves, listPiece_unresolved h resolves]
        exact .failed e
      | ok found =>
        obtain ⟨d, rules⟩ := found
        cases steps : trail.step? ⟨kind, name, m.variation⟩ with
        | none =>
          rw [countPiece_cycle h resolves steps, listPiece_cycle h resolves steps]
          exact .unbounded _
        | some longer =>
          rw [countPiece_reference h resolves steps, listPiece_reference h resolves steps]
          exact countRules_tally kind name (ih d rules longer resolves steps)
  case nil =>
    intro trail
    rw [countPieces_nil, listPieces_nil]
    exact .one _
  case cons =>
    intro trail p rest first others
    rw [countPieces_cons, listPieces_cons]
    exact first.times others

/-- **Counting and listing agree.** A finite count is the length of the listing, capped at 64 bits,
and every listing that succeeds has one. An unbounded count means that the listing meets a cycle,
and where counting fails the listing fails alike, unless it met a cycle before. -/
theorem countRule_listRule (s : Store) (trail : Trail) (r : Rule) :
    (∀ n, s.countRule trail r = .ok (.finite n) →
      ∃ fragments, s.listRule trail r = .ok fragments ∧
        n.toNat = min fragments.length 0xFFFFFFFFFFFFFFFF) ∧
    (s.countRule trail r = .ok .unbounded →
      ∃ chain, s.listRule trail r = .error (.cycle chain)) ∧
    (∀ e, s.countRule trail r = .error e →
      s.listRule trail r = .error e ∨ ∃ chain, s.listRule trail r = .error (.cycle chain)) ∧
    (∀ fragments, s.listRule trail r = .ok fragments →
      ∃ n, s.countRule trail r = .ok (.finite n)) := by
  have tally := countPieces_tally s trail r.pieces
  simp only [countRule, listRule]
  generalize s.countPieces trail r.pieces = counted, s.listPieces trail r.pieces = listed at tally
  cases tally with
  | finite fragments => simp [toNat_capped]
  | unbounded chain => simp
  | failed e => simp
  | behindCycle e chain => simp

end Store
end Phrasebook
