import Phrasebook.Proofs.Blocks

/-!
# Numbers of combinations and the limit

A number of combinations stays at the largest one of 64 bits once it gets there. Sums and products
of such numbers are the exact ones, capped, so below the cap they can be held against a limit. At
the cap they cannot: what stands there is at most the largest limit, whatever it is the cap of.

* `Reckoning`: a number put together by sums and products, with the cap and without it;
* `Reckoning.combinations_eq`: the one is the cap of the other;
* `listRules_of_spans`: where rules have an exact number of combinations, so many are listed;
* `fits_exactly`: a limit below the cap tells small from large, and the enumeration goes by it;
* `capped_number_fits`: the cap itself takes in everything.
-/

namespace Phrasebook

/-! ## Sums and products -/

/-- A number put together of numbers of 64 bits. -/
inductive Reckoning where
  | finite (n : UInt64)
  | plus (a b : Reckoning)
  | times (a b : Reckoning)

namespace Reckoning

/-- The number with the cap at each step. -/
def combinations : Reckoning → Combinations
  | finite n => .finite n
  | plus a b => a.combinations.plus b.combinations
  | times a b => a.combinations.times b.combinations

/-- The number without any cap. -/
def exact : Reckoning → Nat
  | finite n => n.toNat
  | plus a b => a.exact + b.exact
  | times a b => a.exact * b.exact

/-- No step loses more than the cap at the end does. -/
theorem combinations_eq (r : Reckoning) : r.combinations = .finite (capped r.exact) := by
  induction r with
  | finite n => rw [combinations, exact, capped_toNat]
  | plus a b left right =>
    rw [combinations, left, right, exact, Combinations.plus, capped_plus]
  | times a b left right =>
    rw [combinations, left, right, exact, Combinations.times, capped_times]

end Reckoning

/-! ## Lists of combinations -/

namespace Store

variable {s : Store} {trail : Trail} {rules : List Rule} {pieces : List Piece} {n : Nat}

/-- The listing makes so many fragments. -/
def Totals (listed : Outcome (List Fragment)) (n : Nat) : Prop :=
  ∃ fragments, listed = .ok fragments ∧ fragments.length = n

theorem Totals.one {listed : Outcome (List Fragment)} {f : Fragment} (h : listed = .ok [f]) :
    Totals listed 1 :=
  ⟨[f], h, rfl⟩

theorem Totals.product {p : Piece} {rest : List Piece} {a b : Nat}
    (first : Totals (s.listPiece trail p) a) (others : Totals (s.listPieces trail rest) b) :
    Totals (s.listPieces trail (p :: rest)) (a * b) := by
  obtain ⟨fs, listed, rfl⟩ := first
  obtain ⟨gs, listed', rfl⟩ := others
  rw [listPieces_cons, listed, listed']
  exact ⟨combine fs gs, rfl, length_combine fs gs⟩

theorem Totals.sum {kind : Kind} {name : String} {number : Rule → Nat}
    (each : ∀ r ∈ rules, Totals (s.listPieces trail r.pieces) (number r)) :
    Totals (s.listRules trail kind name rules) (rules.map number).sum := by
  induction rules with
  | nil => exact ⟨[], listRules_nil, rfl⟩
  | cons r rest ih =>
    obtain ⟨fs, listed, length⟩ := each r List.mem_cons_self
    obtain ⟨gs, listed', length'⟩ := ih fun r hr => each r (List.mem_cons_of_mem _ hr)
    rw [listRules_cons, listed, listed']
    refine ⟨_, rfl, ?_⟩
    rw [List.length_append, List.length_map, length, length', List.map_cons, List.sum_cons]

/-- As many fragments are listed as there are combinations. -/
theorem listPieces_of_spans (h : s.Spans trail pieces n) :
    Totals (s.listPieces trail pieces) n := by
  induction h with
  | nil => exact .one listPieces_nil
  | @excluded _ _ _ n excluded _ ih =>
    rw [← Nat.one_mul n]
    exact (Totals.one (listPiece_excluded excluded)).product ih
  | @word _ _ _ n _ ih =>
    rw [← Nat.one_mul n]
    exact (Totals.one (listPiece_word _)).product ih
  | group there _ _ inside after =>
    rw [← listPiece_group there] at inside
    exact inside.product after
  | reference there resolves steps _ _ each after =>
    apply Totals.product _ after
    rw [listPiece_reference there resolves steps]
    exact Totals.sum each

theorem listRules_of_spans {kind : Kind} {name : String} (h : s.SpansRules trail rules n) :
    Totals (s.listRules trail kind name rules) n := by
  obtain ⟨number, each, rfl⟩ := h
  exact Totals.sum fun r hr => listPieces_of_spans (each r hr)

end Store

/-! ## What is enumerated -/

namespace Generator

/-- Rules with an exact number of combinations are enumerated or sampled by this number, unless the
limit is the cap. -/
theorem exhaust_of_spans {g : Generator} {intent : String} {target : Target} {rules : List Rule}
    {n : Nat} (spans : g.store.SpansRules [target] rules n) :
    ∃ fragments, g.store.listRules [target] target.kind target.name rules = .ok fragments ∧
      fragments.length = n ∧ ∀ w, g.exhaust intent target rules w =
        if n ≤ g.settings.maxEnumeration.toNat ∨ g.settings.maxEnumeration = 0xFFFFFFFFFFFFFFFF then
          (.ok ((distinct fragments).map (·.toExample intent)), w)
        else g.sample intent (some target) rules g.settings.fallback w := by
  have totals : Store.Totals (g.store.listRules [target] target.kind target.name rules) n :=
    Store.listRules_of_spans spans
  obtain ⟨fragments, listed, length⟩ := totals
  have counted := Store.countRules_eq_finite.mpr ⟨n, spans, rfl⟩
  refine ⟨fragments, listed, length, fun w => ?_⟩
  rw [exhaust, counted]
  dsimp only
  rw [listed]
  by_cases fits : n ≤ g.settings.maxEnumeration.toNat ∨
      g.settings.maxEnumeration = 0xFFFFFFFFFFFFFFFF
  · rw [if_pos fits, if_pos (Combinations.fits_capped.mpr fits)]
    rfl
  · rw [if_neg fits, if_neg (mt Combinations.fits_capped.mp fits)]

/-- **Numbers are exact below the cap.** What sums and products come to fits a limit just when the
number without a cap does, for every limit but the largest one of 64 bits, which everything finite
fits. Where rules have an exact number of combinations, the listing has this length, and it is made
just when the number is within the limit, or the limit is the largest one. -/
theorem fits_exactly (limit : UInt64) :
    (∀ r : Reckoning, r.combinations.fits limit = true ↔
      r.exact ≤ limit.toNat ∨ limit = 0xFFFFFFFFFFFFFFFF) ∧
    ∀ (g : Generator) (intent : String) (target : Target) (rules : List Rule) (n : Nat),
      g.settings.maxEnumeration = limit → g.store.SpansRules [target] rules n →
      ∃ fragments, g.store.listRules [target] target.kind target.name rules = .ok fragments ∧
        fragments.length = n ∧ ∀ w, g.exhaust intent target rules w =
          if n ≤ limit.toNat ∨ limit = 0xFFFFFFFFFFFFFFFF then
            (.ok ((distinct fragments).map (·.toExample intent)), w)
          else g.sample intent (some target) rules g.settings.fallback w := by
  constructor
  · intro r
    rw [r.combinations_eq]
    exact Combinations.fits_capped
  · rintro g intent target rules n rfl spans
    exact exhaust_of_spans spans

/-- Three combinations are enumerated where three may be, and 2^64 do not fit the largest limit but
one. -/
theorem fits_exactly_greeting : ∃ (g : Generator) (target : Target) (rules : List Rule) (n : Nat),
    g.store.SpansRules [target] rules n ∧ n = 3 ∧ g.settings.maxEnumeration = 3 ∧
      (∃ examples, examples.map (·.text) = ["oh there", "hey there", "hey"] ∧
        ∀ w, g.exhaust "hi" target rules w = (.ok examples, w)) ∧
      (Reckoning.times (.finite 0x100000000) (.finite 0x100000000)).combinations.fits
        0xFFFFFFFFFFFFFFFE = false := by
  let s : Store := ⟨⟨[("a", ⟨"a", .alias, false,
    [⟨none, none, [⟨[.word "oh"], none⟩, ⟨[.word "hey"], none⟩]⟩]⟩)], by decide⟩, ∅, ∅⟩
  let rules : List Rule :=
    [⟨[.reference .alias "a" {}, .word "there"], none⟩, ⟨[.word "hey"], none⟩]
  let target : Target := ⟨.intent, "hi", none⟩
  let g : Generator := ⟨s, { maxEnumeration := 3 }⟩
  have counted : g.store.countRules [target] rules = .ok (.finite 3) := by cbv
  obtain ⟨n, spans, size⟩ := Store.countRules_eq_finite.mp counted
  obtain rfl : n = 3 := by
    have capped := congrArg UInt64.toNat size
    rw [toNat_capped] at capped
    have three : (3 : UInt64).toNat = 3 := rfl
    omega
  obtain ⟨-, enumerated⟩ := fits_exactly 3
  obtain ⟨fits, -⟩ := fits_exactly 0xFFFFFFFFFFFFFFFE
  obtain ⟨fragments, listed, _, exhausted⟩ := enumerated g "hi" target rules 3 rfl spans
  have texts : g.store.listRules [target] .intent "hi" rules =
      .ok [.word "oh there", .word "hey there", .word "hey"] := by cbv
  cases listed.symm.trans texts
  have few : 3 ≤ (3 : UInt64).toNat := Nat.le_refl 3
  simp only [few, true_or, if_true] at exhausted
  refine ⟨g, target, rules, 3, spans, rfl, rfl, ⟨_, ?_, exhausted⟩, ?_⟩
  · cbv
  · rw [Bool.eq_false_iff, ne_eq, fits]
    decide

/-- One more than the largest number of 64 bits is held to be at most that. -/
theorem capped_number_fits : ∃ (r : Reckoning) (limit : UInt64),
    r = .plus (.finite 0xFFFFFFFFFFFFFFFF) (.finite 1) ∧ r.exact = 0x10000000000000000 ∧
      limit = 0xFFFFFFFFFFFFFFFF ∧
      ¬ (r.combinations.fits limit = true ↔ r.exact ≤ limit.toNat) :=
  ⟨.plus (.finite 0xFFFFFFFFFFFFFFFF) (.finite 1), 0xFFFFFFFFFFFFFFFF, rfl, rfl, rfl, by decide⟩

end Generator
end Phrasebook
