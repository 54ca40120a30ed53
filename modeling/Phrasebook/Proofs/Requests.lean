import Phrasebook.Proofs.Attempts
import Phrasebook.Proofs.Listed

/-!
# Requests and references

An intent is asked for from outside, or referred to in a rule. A request looks up its rules, draws
one and steps onto the target on a way of its own, and a reference does so on another.

* `sample_one`: asking for one example is making one attempt, whose text cannot be a repeated one;
* `attempt_eq_reference`: an attempt is what a plain reference expands to, as long as the intent
  itself recases nothing;
* `request_of_declared`: a variation with a count is generated as so many examples of it;
* `request_is_reference`: both ways agree, results, errors and words.
-/

namespace Phrasebook

/-- A reference to an intent, or to a variation of it, that is always there and changes nothing. -/
def Piece.toIntent (intent : String) (variation : Option String) : Piece :=
  .reference .intent intent { variation }

namespace Generator

variable {g : Generator} {intent : String} {variation : Option String} {rules : List Rule}

/-- One example is wanted, and the first one is new. -/
theorem gather_one (attempt : Words → Outcome Example × Words) (spare : Nat) (w : Words) :
    gather attempt 1 spare ∅ #[] w = ((attempt w).1.map ([·]), (attempt w).2) := by
  rw [gather]
  cases attempt w with
  | mk outcome next =>
    cases outcome with
    | error e => simp [Except.map]
    | ok e => simp [gather, Except.map]

theorem sample_one (within : 1 ≤ g.settings.maxCount) (target : Option Target) (w : Words) :
    g.sample intent target rules 1 w =
      (.of ((g.attempt intent target rules w).1.map ([·])),
        (g.attempt intent target rules w).2) := by
  rw [sample, if_neg (UInt64.not_lt.mpr within), if_neg (by decide)]
  exact congrArg (fun made => (Answer.of made.1, made.2)) (gather_one _ _ w)

theorem attempt_eq_reference {d : Definition}
    (resolves : g.store.resolve ⟨.intent, intent, variation⟩ = .ok (d, rules))
    (plain : d.casing = false) (w : Words) :
    g.attempt intent (some ⟨.intent, intent, variation⟩) rules w =
      let (outcome, pass) := g.store.expandPiece [] (.toIntent intent variation) { words := w }
      (outcome.map (·.toExample intent), pass.words) := by
  let t : Target := ⟨.intent, intent, variation⟩
  have taken : Pass.includes { variation } ⟨w, []⟩ = (true, ⟨w, []⟩) := rfl
  have steps : Trail.step? [] t = some [t] := if_neg List.not_mem_nil
  unfold attempt Piece.toIntent
  cases draws : w.choose rules with
  | mk rule? left =>
    have drawn := Pass.choose_of_words draws
    cases rule? with
    | none =>
      rw [Store.expandPiece_ruleless taken resolves drawn]
      rfl
    | some r =>
      dsimp only
      rw [Store.expandWithin_of_step? steps]
      cases body : g.store.expandPieces [t] r.pieces ⟨left, []⟩ with
      | mk outcome last =>
        rw [Store.expandPiece_reference taken resolves drawn steps body]
        cases outcome with
        | error e => rfl
        | ok f =>
          -- neither the reference nor the intent recases, so no word is taken behind the rule
          simp [plain, Pass.casing, Fragment.shown_asWritten]

theorem generateCount_one
    (plain : ∀ d, g.store.find? .intent intent = some d → d.casing = false)
    (within : 1 ≤ g.settings.maxCount) (variation : Option String) (w : Words) :
    g.generateCount intent variation 1 w =
      let (outcome, pass) := g.store.expandPiece [] (.toIntent intent variation) { words := w }
      (.of (outcome.map fun f => [f.toExample intent]), pass.words) := by
  have taken : Pass.includes { variation } ⟨w, []⟩ = (true, ⟨w, []⟩) := rfl
  rw [generateCount, if_neg (by decide)]
  dsimp only
  cases resolves : g.store.resolve ⟨.intent, intent, variation⟩ with
  | error e =>
    rw [Piece.toIntent, Store.expandPiece_unresolved taken resolves]
    rfl
  | ok found =>
    obtain ⟨d, rules⟩ := found
    have there := (Store.resolve_eq_ok.mp resolves).1
    dsimp only
    rw [sample_one within, attempt_eq_reference resolves (plain d there)]
    cases g.store.expandPiece [] (.toIntent intent variation) ⟨w, []⟩ with
    | mk outcome pass => cases outcome <;> rfl

/-- The block of a variation is one of so many examples, if its count is written. -/
theorem request_of_declared {d : Definition} {v : Variation} {name : String} {count : UInt64}
    (there : g.store.find? .intent intent = some d) (known : d.variation? (some name) = some v)
    (declared : v.count = some count) (positive : count ≠ 0) (w : Words) :
    g.generate intent (some name) w = g.generateCount intent (some name) count w := by
  have named : v.name = some name := by simpa using List.find?_some known
  have resolves : g.store.resolve ⟨.intent, intent, some name⟩ = .ok (d, v.rules) := by
    apply Store.resolve_eq_ok.mpr
    simp [there, Definition.rulesOf, known]
  rw [generate, selected_named there known, generateCount, if_neg positive]
  dsimp only
  rw [resolves]
  simp only [blocks, block, declared, named]
  cases g.sample intent (some ⟨.intent, intent, some name⟩) v.rules count w with
  | mk outcome last => cases outcome <;> simp

/-- **A request is a reference.** Where an intent recases nothing itself, one example of it, or of a
variation of it, is what a plain reference expands to on an empty trail, with the same words taken:
whatever is declared, and with the same error where one of them fails. A variation with a count is
generated as so many examples of it. -/
theorem request_is_reference (g : Generator) (intent : String) :
    ((∀ d, g.store.find? .intent intent = some d → d.casing = false) →
        1 ≤ g.settings.maxCount → ∀ variation w,
          g.generateCount intent variation 1 w =
            let (outcome, pass) :=
              g.store.expandPiece [] (.reference .intent intent { variation }) { words := w }
            (.of (outcome.map fun f => [f.toExample intent]), pass.words)) ∧
      ∀ d v name count, g.store.find? .intent intent = some d →
        d.variation? (some name) = some v → v.count = some count → count ≠ 0 →
        ∀ w, g.generate intent (some name) w = g.generateCount intent (some name) count w :=
  ⟨generateCount_one, fun _ _ _ _ there known declared positive =>
    request_of_declared there known declared positive⟩

/-- A short greeting, of which two are wanted, with the long one behind a word. -/
theorem request_is_reference_greeting : ∃ (g : Generator) (w : Words),
    (∀ d, g.store.find? .intent "hi" = some d → d.casing = false) ∧
      1 ≤ g.settings.maxCount ∧
      (g.generateCount "hi" (some "short") 1 w).1 = .ok [⟨"hi", "oh hello", []⟩] ∧
      (g.generateCount "hi" (some "short") 1 w).1 =
        .of ((g.store.expandPiece [] (.reference .intent "hi" { variation := some "short" })
          { words := w }).1.map (fun f => [f.toExample "hi"])) ∧
      g.generate "hi" (some "short") w = g.generateCount "hi" (some "short") 2 w := by
  let short : Variation := ⟨some "short", some 2,
    [⟨[.word "oh", .reference .intent "hi" { variation := some "long" }], none⟩]⟩
  let long : Variation := ⟨some "long", none, [⟨[.word "hello"], none⟩]⟩
  let d : Definition := ⟨"hi", .intent, false, [short, long]⟩
  let s : Store := ⟨∅, ∅, ⟨[("hi", d)], by decide⟩⟩
  let g : Generator := ⟨s, {}⟩
  let w : Words := ⟨fun _ => 0, 0⟩
  have there : g.store.find? .intent "hi" = some d := rfl
  have plain : ∀ d, g.store.find? .intent "hi" = some d → d.casing = false := by
    intro d' there'
    rw [there] at there'
    cases there'
    rfl
  have within : 1 ≤ g.settings.maxCount := by decide
  have made : (g.generateCount "hi" (some "short") 1 w).1 = .ok [⟨"hi", "oh hello", []⟩] := by cbv
  obtain ⟨one, declared⟩ := request_is_reference g "hi"
  have same := one plain within (some "short") w
  exact ⟨g, w, plain, within, made, congrArg (·.1) same,
    declared d short "short" 2 there rfl rfl (by decide) w⟩

end Generator
end Phrasebook
