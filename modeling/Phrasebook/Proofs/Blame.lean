import Phrasebook.Proofs.Attempts
import Phrasebook.Proofs.Dangling

/-!
# Who is blamed for an error

An error is taken for the caller's fault by its kind alone. So a request that asks for nothing
wrong is blamed for what is wrong in the templates or in the settings, where that is of such a kind.

* `Store.Obstacle`: what expanding and counting can fail with, by the targets that they can come to;
* `expandPieces_obstacle`, `countRules_obstacle`: they fail with nothing else, as they halt only
  where references lead;
* `Generator.Misblamed`: what blames the request for a variation that is there;
* `block_fails`: the examples of one fail with an obstacle of its rules, or with that;
* `generate_misblames`: no other error of a request for what is there blames it.
-/

namespace Phrasebook

/-- An intent is not there, or a variation of one. -/
def Error.MissesIntent : Error → Prop
  | .undeclared .intent _ => True
  | .unknownVariation .intent _ _ => True
  | _ => False

namespace Store

/-- What expanding and counting can fail with, where these targets can be come to. -/
inductive Obstacle (s : Store) (met : Target → Prop) : Error → Prop
  | missing {t e} (there : met t) (unresolved : s.resolve t = .error e) : Obstacle s met e
  | cycle (chain : List Target) : Obstacle s met (.cycle chain)
  | withoutRules (kind : Kind) (name : String) : Obstacle s met (.withoutRules kind name)

/-- From the pieces the target is reached, whatever the percentages are. -/
def Meets (s : Store) (pieces : List Piece) (t : Target) : Prop :=
  s.Reaches (fun _ => True) pieces t

/-- From one of the rules the target is reached. -/
def MeetsFrom (s : Store) (rules : List Rule) (t : Target) : Prop :=
  ∃ r ∈ rules, s.Meets r.pieces t

variable {s : Store} {trail : Trail} {met more : Target → Prop} {e : Error}

theorem Obstacle.mono (h : s.Obstacle met e) (all : ∀ t, met t → more t) : s.Obstacle more e := by
  cases h with
  | missing there unresolved => exact .missing (all _ there) unresolved
  | cycle chain => exact .cycle chain
  | withoutRules kind name => exact .withoutRules kind name

theorem expandPieces_obstacle (s : Store) (trail : Trail) (pieces : List Piece) (pass : Pass) :
    FailsAs (s.Obstacle (s.Meets pieces)) (s.expandPieces trail pieces pass).1 := by
  refine (s.expandPieces_halts trail pieces pass).mono ?_
  rintro e ⟨later, t, visits, halts⟩
  cases halts with
  | unresolved unresolved => exact .missing visits.reaches unresolved
  | ruleless => exact .withoutRules _ _
  | cycle => exact .cycle _

theorem countRules_obstacle (s : Store) (trail : Trail) (rules : List Rule) :
    FailsAs (s.Obstacle (s.MeetsFrom rules)) (s.countRules trail rules) := by
  apply countRules_fails
  intro r known
  refine (s.countPieces_halts trail r.pieces).mono ?_
  rintro e ⟨later, t, visits, unresolved⟩
  exact .missing ⟨r, known, (visits.mono fun _ _ => trivial).reaches⟩ unresolved

/-- What is listed where the count was found small enough is listed without an error. -/
theorem listed_of_fits {rules : List Rule} {size : Combinations} {limit : UInt64}
    (counted : s.countRules trail rules = .ok size) (fits : size.fits limit = true) (kind : Kind)
    (name : String) : ∃ fragments, s.listRules trail kind name rules = .ok fragments := by
  have tally := countRules_tally kind name
    fun r (_ : r ∈ rules) => countPieces_tally s trail r.pieces
  rw [counted] at tally
  generalize s.listRules trail kind name rules = listed at tally ⊢
  cases tally with
  | finite fragments => exact ⟨fragments, rfl⟩
  | unbounded chain => simp [Combinations.fits] at fits

theorem missesIntent_of_resolve {t : Target} (unresolved : s.resolve t = .error e) :
    e.blamesRequest = true ↔ e.MissesIntent := by
  obtain ⟨kind, name, rfl⟩ | ⟨kind, name, variation, rfl⟩ := missing_of_resolve unresolved
  · cases kind <;> simp [Error.blamesRequest, Error.root, Error.MissesIntent]
  · cases kind <;> simp [Error.blamesRequest, Error.root, Error.MissesIntent]

end Store

namespace Generator

variable {g : Generator} {intent : String} {rules : List Rule} {v : Variation} {e : Error}

/-- What blames a request for a variation that is there. An intent is missing that its rules lead
to, or more is to be sampled for it than one request may ask for: its own count, or the number that
is sampled in place of an enumeration. -/
inductive Misblamed (g : Generator) (intent : String) (v : Variation) : Error → Prop
  | missing {t e} (there : g.store.MeetsFrom v.rules t) (unresolved : g.store.resolve t = .error e)
      (lost : e.MissesIntent) : Misblamed g intent v e
  | counted {count} (declared : v.count = some count) (above : g.settings.maxCount < count) :
      Misblamed g intent v (.invalidCount (.aboveLimit count g.settings.maxCount))
  | fallback {size} (uncounted : v.count = none)
      (sized : g.store.countRules [⟨.intent, intent, v.name⟩] v.rules = .ok size)
      (large : size.fits g.settings.maxEnumeration = false)
      (above : g.settings.maxCount < g.settings.fallback) :
      Misblamed g intent v (.invalidCount (.aboveLimit g.settings.fallback g.settings.maxCount))

theorem attempt_obstacle (g : Generator) (intent : String) (target : Option Target)
    (rules : List Rule) (w : Words) :
    FailsAs (g.store.Obstacle (g.store.MeetsFrom rules)) (g.attempt intent target rules w).1 := by
  apply attempt_fails
  · intro _
    exact .withoutRules _ _
  · intro r hr pass e h
    have inside := g.store.expandPieces_obstacle _ r.pieces pass e h
    exact inside.mono fun t there => ⟨r, hr, there⟩

theorem block_fails (intent : String) (v : Variation) (w : Words) :
    (g.block intent v w).1.FailsAs fun e =>
      g.store.Obstacle (g.store.MeetsFrom v.rules) e ∨ g.Misblamed intent v e := by
  have drawn (w : Words) := attempt_obstacle g intent (some ⟨.intent, intent, v.name⟩) v.rules w
  unfold block
  dsimp only
  split
  · next count declared =>
    apply sample_fails
    · intro above
      exact .inr (.counted declared above)
    · exact fun w e h => .inl (drawn w e h)
  · next uncounted =>
    apply exhaust_fails
    · intro e failed
      exact .inl (g.store.countRules_obstacle _ v.rules e failed)
    · intro size counted fits
      obtain ⟨fragments, listed⟩ := Store.listed_of_fits counted fits .intent intent
      rw [listed]
      exact failsAs_ok
    · intro size sized large
      apply sample_fails
      · intro above
        exact .inr (.fallback uncounted sized large above)
      · exact fun w e h => .inl (drawn w e h)

theorem Misblamed.blames (h : g.Misblamed intent v e) : e.blamesRequest = true := by
  cases h with
  | missing _ unresolved lost => exact (Store.missesIntent_of_resolve unresolved).mpr lost
  | counted => rfl
  | fallback => rfl

/-- An obstacle that blames the request is a missing intent. -/
theorem misblamed_of_obstacle (h : g.store.Obstacle (g.store.MeetsFrom v.rules) e)
    (blames : e.blamesRequest = true) : g.Misblamed intent v e := by
  cases h with
  | missing there unresolved =>
    exact .missing there unresolved ((Store.missesIntent_of_resolve unresolved).mp blames)
  | cycle chain => cases blames
  | withoutRules kind name => cases blames

/-- **When a request takes the blame.** A request for an intent that is there, and for a variation
that is there if it names one, asks for nothing wrong. An error of it blames the request all the
same, just when an intent is missing that the rules it draws from lead to, or when a count that
comes from the template or from the settings is above the limit. -/
theorem generate_misblames (g : Generator) {intent : String} {variation : Option String}
    (resolves : g.store.Resolves ⟨.intent, intent, variation⟩) :
    ∃ d vs, g.store.find? .intent intent = some d ∧ (∀ v ∈ vs, v ∈ d.variations) ∧
      g.selected intent variation = .ok vs ∧
      ∀ w e, (g.generate intent variation w).1 = .error e →
        (e.blamesRequest = true ↔ ∃ v ∈ vs, g.Misblamed intent v e) := by
  obtain ⟨d, vs, found, selected, own⟩ := selected_of_resolves resolves
  refine ⟨d, vs, found, own, selected, fun w e failed => ?_⟩
  rw [generate, selected] at failed
  have causes : ∃ v ∈ vs,
      g.store.Obstacle (g.store.MeetsFrom v.rules) e ∨ g.Misblamed intent v e := by
    apply blocks_fails ?_ w e failed
    intro v hv w e h
    exact ⟨v, hv, block_fails intent v w e h⟩
  constructor
  · intro blames
    obtain ⟨v, hv, hindered | misblamed⟩ := causes
    · exact ⟨v, hv, misblamed_of_obstacle hindered blames⟩
    · exact ⟨v, hv, misblamed⟩
  · rintro ⟨v, _, misblamed⟩
    exact misblamed.blames

/-- Seven are declared where five may be asked for, and the one who asked for none is blamed. -/
theorem generate_misblames_counted : ∃ (g : Generator) (w : Words) (e : Error),
    Template.read {} "%[hi](7)\n  hello\n" = .ok g.store ∧
      g.store.Resolves ⟨.intent, "hi", none⟩ ∧ (g.generate "hi" none w).1 = .error e ∧
      e = .invalidCount (.aboveLimit 7 5) ∧ e.blamesRequest = true ∧
      ∃ v, g.Misblamed "hi" v e := by
  let v : Variation := ⟨none, some 7, [⟨[.word "hello"], none⟩]⟩
  let s : Store := ⟨∅, ∅, ⟨[("hi", ⟨"hi", .intent, false, [v]⟩)], by decide⟩⟩
  let g : Generator := ⟨s, { maxCount := 5 }⟩
  let w : Words := ⟨fun _ => 0, 0⟩
  have loaded : Template.read {} "%[hi](7)\n  hello\n" = .ok g.store := by cbv
  have known : g.store.checkTarget .intent "" ⟨.intent, "hi", none⟩ = none := by decide
  have resolves := Store.checkTarget_eq_none.mp known
  have failed : (g.generate "hi" none w).1 = .error (.invalidCount (.aboveLimit 7 5)) := by cbv
  obtain ⟨d, vs, _, _, _, blamed⟩ := generate_misblames g resolves
  have blames : (Error.invalidCount (.aboveLimit 7 5)).blamesRequest = true := rfl
  obtain ⟨v, _, misblamed⟩ := (blamed w _ failed).mp blames
  exact ⟨g, w, _, loaded, resolves, failed, rfl, blames, v, misblamed⟩

/-- The intent that is asked for is there, and one that its rule refers to is not: the request is
blamed, whatever the words are. -/
theorem missing_intent_blames : ∃ (g : Generator) (e : Error),
    Template.read {} "%[hi]\n  %[bye]\n" = .ok g.store ∧
      g.store.Resolves ⟨.intent, "hi", none⟩ ∧
      (∀ w, g.generate "hi" none w = (.error e, w)) ∧ e.blamesRequest = true := by
  let s : Store := ⟨∅, ∅, ⟨[("hi", ⟨"hi", .intent, false,
    [⟨none, none, [⟨[.reference .intent "bye" {}], none⟩]⟩]⟩)], by decide⟩⟩
  let g : Generator := ⟨s, {}⟩
  have loaded : Template.read {} "%[hi]\n  %[bye]\n" = .ok g.store := by cbv
  have known : g.store.checkTarget .intent "" ⟨.intent, "hi", none⟩ = none := by decide
  have failed : ∀ w, g.generate "hi" none w = (.error (.undeclared .intent "bye"), w) := by
    intro w
    cbv
  exact ⟨g, _, loaded, Store.checkTarget_eq_none.mp known, failed, rfl⟩

end Generator
end Phrasebook
