import Phrasebook.Proofs.Blame
import Phrasebook.Proofs.Blocks

/-!
# Counts that are refused

One limit holds for everything that is sampled. So it refuses not only a count that was asked for,
but also the number that the settings give for what is not enumerated.

* `Generator.Overdraws`: a variation for which more is to be sampled than the limit allows;
* `block_of_overdraws`, `block_eq_invalidCount`: such a variation is refused before any word is
  taken, and nothing else is refused for its count;
* `generate_overdraws`: a request is refused for a count at its first such variation, if all before
  it succeed;
* `fallback_overdraws`: a request that is refused though no count is asked for anywhere.
-/

namespace Phrasebook.Generator

/-- More is to be sampled for the variation than one request may ask for. It is the count that the
variation declares, or the fallback where it declares none and is not enumerated. -/
inductive Overdraws (g : Generator) (intent : String) (v : Variation) : UInt64 → Prop
  | counted {count} (declared : v.count = some count) (above : g.settings.maxCount < count) :
      Overdraws g intent v count
  | fallback {size} (uncounted : v.count = none)
      (sized : g.store.countRules [bodyOf intent v] v.rules = .ok size)
      (large : size.fits g.settings.maxEnumeration = false)
      (above : g.settings.maxCount < g.settings.fallback) :
      Overdraws g intent v g.settings.fallback

variable {g : Generator} {intent : String} {v : Variation} {vs : List Variation} {count : UInt64}
  {fault : CountFault} {w last : Words}

/-! ## One variation -/

theorem block_of_overdraws (h : g.Overdraws intent v count) (w : Words) :
    g.block intent v w =
      (.error (.invalidCount (.aboveLimit count g.settings.maxCount)), w) := by
  unfold block
  cases h with
  | counted declared above =>
    rw [declared]
    exact sample_above g intent _ v.rules above w
  | fallback uncounted sized large above =>
    rw [uncounted]
    dsimp only [exhaust]
    rw [bodyOf] at sized
    rw [sized]
    dsimp only
    rw [if_neg (Bool.eq_false_iff.mp large)]
    exact sample_above g intent _ v.rules above w

/-- What is in the way of the rules is never a count. -/
theorem overdraws_of_block (h : (g.block intent v w).1 = .error (.invalidCount fault)) :
    ∃ count, g.Overdraws intent v count ∧ fault = .aboveLimit count g.settings.maxCount := by
  rcases block_fails intent v w _ h with hindered | misblamed
  · cases hindered with
    | missing _ unresolved =>
      obtain ⟨_, _, same⟩ | ⟨_, _, _, same⟩ := Store.missing_of_resolve unresolved
      · cases same
      · cases same
  · cases misblamed with
    | missing _ _ lost => cases lost
    | counted declared above => exact ⟨_, .counted declared above, rfl⟩
    | fallback uncounted sized large above =>
      exact ⟨_, .fallback uncounted sized large above, rfl⟩

theorem block_eq_invalidCount :
    g.block intent v w = (.error (.invalidCount fault), last) ↔
      ∃ count, g.Overdraws intent v count ∧ fault = .aboveLimit count g.settings.maxCount ∧
        w = last := by
  constructor
  · intro failed
    obtain ⟨count, overdraws, same⟩ := overdraws_of_block (congrArg Prod.fst failed)
    rw [block_of_overdraws overdraws] at failed
    exact ⟨count, overdraws, same, congrArg Prod.snd failed⟩
  · rintro ⟨count, overdraws, rfl, rfl⟩
    exact block_of_overdraws overdraws w

/-! ## A request -/

theorem generate_eq_invalidCount {variation : Option String} :
    g.generate intent variation w = (.error (.invalidCount fault), last) ↔
      ∃ before v after examples count, g.selected intent variation = .ok (before ++ v :: after) ∧
        g.blocks intent before w = (.ok examples, last) ∧ g.Overdraws intent v count ∧
        fault = .aboveLimit count g.settings.maxCount := by
  have asked : g.selected intent variation ≠ .error (.invalidCount fault) := fun failed =>
    selected_fails (P := fun e => e ≠ .invalidCount fault) nofun (fun _ => nofun) variation _
      failed rfl
  rw [generate]
  constructor
  · intro failed
    split at failed
    · next e refused =>
      cases failed
      exact absurd refused asked
    · next vs selected =>
      obtain ⟨before, v, after, examples, next, rfl, made, stopped⟩ := blocks_eq_error.mp failed
      obtain ⟨count, overdraws, same, rfl⟩ := block_eq_invalidCount.mp stopped
      exact ⟨before, v, after, examples, count, selected, made, overdraws, same⟩
  · rintro ⟨before, v, after, examples, count, selected, made, overdraws, same⟩
    rw [selected]
    have stopped : g.block intent v last = (.error (.invalidCount fault), last) :=
      block_eq_invalidCount.mpr ⟨count, overdraws, same, rfl⟩
    exact blocks_eq_error.mpr ⟨before, v, after, examples, last, rfl, made, stopped⟩

/-- **When a request is refused for a count.** It comes to a variation, those before it all being
made, for which more is to be sampled than the limit allows, and no word is taken for this one. The
number is one that the variation declares, unless the fallback is itself above the limit. With a
fallback within the limit, and no count declared, no request is refused for one. -/
theorem generate_overdraws (g : Generator) (intent : String) (variation : Option String)
    (fault : CountFault) (w : Words) :
    (∀ last, g.generate intent variation w = (.error (.invalidCount fault), last) ↔
      ∃ before v after examples count, g.selected intent variation = .ok (before ++ v :: after) ∧
        g.blocks intent before w = (.ok examples, last) ∧ g.Overdraws intent v count ∧
        fault = .aboveLimit count g.settings.maxCount) ∧
    (g.settings.fallback ≤ g.settings.maxCount →
      (g.generate intent variation w).1 = .error (.invalidCount fault) →
      ∃ vs, g.selected intent variation = .ok vs ∧
        ∃ v ∈ vs, ∃ count, v.count = some count ∧ g.settings.maxCount < count) ∧
    (g.settings.fallback ≤ g.settings.maxCount →
      (∀ d ∈ g.store.definitions .intent, ∀ v ∈ d.variations, v.count = none) →
      (g.generate intent variation w).1 ≠ .error (.invalidCount fault)) := by
  have declares (within : g.settings.fallback ≤ g.settings.maxCount)
      (failed : (g.generate intent variation w).1 = .error (.invalidCount fault)) :
      ∃ vs, g.selected intent variation = .ok vs ∧
        ∃ v ∈ vs, ∃ count, v.count = some count ∧ g.settings.maxCount < count := by
    obtain ⟨before, v, after, _, count, selected, _, overdraws, _⟩ :=
      generate_eq_invalidCount.mp (Prod.ext failed rfl)
    have meant : v ∈ before ++ v :: after := List.mem_append_right before List.mem_cons_self
    cases overdraws with
    | counted declared above => exact ⟨_, selected, v, meant, count, declared, above⟩
    | fallback _ _ _ above => exact absurd above (UInt64.not_lt.mpr within)
  refine ⟨fun last => generate_eq_invalidCount, declares, fun within uncounted failed => ?_⟩
  obtain ⟨vs, selected, v, hv, count, declared, _⟩ := declares within failed
  obtain ⟨d, found, own⟩ := mem_variations_of_selected selected
  have none := uncounted d (Store.mem_definitions.mpr ⟨intent, found⟩) v (own v hv)
  rw [none] at declared
  cases declared

/-- Two examples are made of the first variation, and then seven are declared where five may be
asked for. Without these seven, what is too much to be enumerated is sampled. -/
theorem generate_overdraws_declared : ∃ (g calm : Generator) (w : Words) (fault : CountFault),
    g.settings = { maxCount := 5, maxEnumeration := 1, fallback := 5 } ∧
      calm.settings = g.settings ∧ fault = .aboveLimit 7 5 ∧
      (∃ examples last, g.generate "hi" none w = (.error (.invalidCount fault), last) ∧
        examples.map (·.text) = ["hello", "hello"] ∧
        ∃ before, g.blocks "hi" before w = (.ok examples, last)) ∧
      (∃ vs, g.selected "hi" none = .ok vs ∧
        ∃ v ∈ vs, ∃ count, v.count = some count ∧ g.settings.maxCount < count) ∧
      (∀ d ∈ calm.store.definitions .intent, ∀ v ∈ d.variations, v.count = none) ∧
      (calm.generate "hi" none w).1 ≠ .error (.invalidCount fault) := by
  let v : Variation := ⟨none, some 2, [⟨[.word "hello"], none⟩]⟩
  let many : Variation := ⟨some "many", some 7, [⟨[.word "hey"], none⟩]⟩
  let plain : Variation := ⟨none, none, [⟨[.word "hello"], none⟩, ⟨[.word "hey"], none⟩]⟩
  let settings : Settings := { maxCount := 5, maxEnumeration := 1, fallback := 5 }
  let g : Generator := ⟨⟨∅, ∅, ⟨[("hi", ⟨"hi", .intent, false, [v, many]⟩)], by decide⟩⟩, settings⟩
  let calm : Generator := ⟨⟨∅, ∅, ⟨[("hi", ⟨"hi", .intent, false, [plain]⟩)], by decide⟩⟩, settings⟩
  let w : Words := ⟨fun _ => 0, 0⟩
  have made : g.blocks "hi" [v] w =
      (.ok [⟨"hi", "hello", []⟩, ⟨"hi", "hello", []⟩], ⟨fun _ => 0, 10⟩) := by cbv
  have overdraws : g.Overdraws "hi" many 7 := .counted rfl (by decide)
  obtain ⟨refused, declares, _⟩ := generate_overdraws g "hi" none (.aboveLimit 7 5) w
  have failed := (refused _).mpr ⟨[v], many, [], _, 7, rfl, made, overdraws, rfl⟩
  obtain ⟨_, _, never⟩ := generate_overdraws calm "hi" none (.aboveLimit 7 5) w
  have uncounted : ∀ d ∈ calm.store.definitions .intent, ∀ v ∈ d.variations, v.count = none := by
    intro d hd v hv
    cases List.mem_singleton.mp hd
    cases List.mem_singleton.mp hv
    rfl
  exact ⟨g, calm, w, .aboveLimit 7 5, rfl, rfl, rfl, ⟨_, _, failed, rfl, [v], made⟩,
    declares (by decide) (congrArg Prod.fst failed), uncounted, never (by decide) uncounted⟩

/-- No count is asked for anywhere, and the request is refused for one all the same, whatever the
words are: two examples stand in for an enumeration, and one is the most that may be asked for. -/
theorem fallback_overdraws : ∃ g : Generator,
    Template.read {} "%[hi]\n  hello\n" = .ok g.store ∧
      Settings.withFallback { dedupFactor := 0, maxEnumeration := 0, maxCount := 1 } 2 =
        .ok g.settings ∧
      (∀ d ∈ g.store.definitions .intent, ∀ v ∈ d.variations, v.count = none) ∧
      ∀ w, g.generate "hi" none w = (.error (.invalidCount (.aboveLimit 2 1)), w) := by
  let v : Variation := ⟨none, none, [⟨[.word "hello"], none⟩]⟩
  let s : Store := ⟨∅, ∅, ⟨[("hi", ⟨"hi", .intent, false, [v]⟩)], by decide⟩⟩
  let g : Generator :=
    ⟨s, { dedupFactor := 0, maxEnumeration := 0, maxCount := 1, fallback := 2 }⟩
  have loaded : Template.read {} "%[hi]\n  hello\n" = .ok g.store := by cbv
  have counted : g.store.countRules [bodyOf "hi" v] v.rules = .ok (.finite 1) := by cbv
  have overdraws : g.Overdraws "hi" v 2 := .fallback rfl counted (by decide) (by decide)
  refine ⟨g, loaded, rfl, fun d hd v hv => ?_, fun w => ?_⟩
  · cases List.mem_singleton.mp hd
    cases List.mem_singleton.mp hv
    rfl
  · exact generate_eq_invalidCount.mpr ⟨[], v, [], [], 2, rfl, rfl, overdraws, rfl⟩

end Phrasebook.Generator
