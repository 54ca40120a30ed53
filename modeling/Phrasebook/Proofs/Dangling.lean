import Phrasebook.Proofs.Attempts
import Phrasebook.Proofs.Declared
import Phrasebook.Proofs.Loops

/-!
# What the check of references promises

A store without dangling references can still fail to generate: references may go in circles, and
too many utterances may be asked for. It cannot fail because something is not there.

* `Store.Excusable`: the errors that are left; a template leaves out one more;
* `expandPieces_excusable`: expanding meets no other, as it halts only where references lead;
* `Drawable`: what the rules of a closed store are, wherever generating takes them from;
* `dangling_eq_nil_generates`: what an empty report says, and what it promises.
-/

namespace Phrasebook

/-- The error names a definition or a variation that is not there. -/
def Error.LeadsNowhere (e : Error) : Prop :=
  match e.root with
  | .undeclared _ _ => True
  | .unknownVariation _ _ _ => True
  | _ => False

namespace Store

/-- An error that a store can give though its references all resolve. -/
inductive Excusable (s : Store) : Error → Prop
  | cycle (chain : List Target) : Excusable s (.cycle chain)
  | invalidCount (fault : CountFault) : Excusable s (.invalidCount fault)
  | withoutRules (kind : Kind) (name : String) (bare : ¬ s.Furnished) :
      Excusable s (.withoutRules kind name)

variable {s : Store} {trail : Trail}

theorem Excusable.leads {e : Error} (h : s.Excusable e) : ¬ e.LeadsNowhere := by
  cases h <;> exact id

theorem Excusable.of_furnished {e : Error} (h : s.Excusable e) (furnished : s.Furnished) :
    (∃ chain, e = .cycle chain) ∨ ∃ fault, e = .invalidCount fault := by
  cases h with
  | cycle chain => exact .inl ⟨chain, rfl⟩
  | invalidCount fault => exact .inr ⟨fault, rfl⟩
  | withoutRules kind name bare => exact absurd furnished bare

/-! ## Expanding -/

theorem expandPieces_excusable (closed : s.Closed) {pieces : List Piece}
    (grounded : s.Grounded pieces) (trail : Trail) (pass : Pass) :
    FailsAs s.Excusable (s.expandPieces trail pieces pass).1 := by
  refine (s.expandPieces_halts trail pieces pass).mono ?_
  rintro e ⟨later, t, visits, halts⟩
  cases halts with
  | unresolved unresolved =>
    obtain ⟨d, rules, resolves⟩ := resolves_iff.mp (closed.reaches grounded visits.reaches)
    rw [resolves] at unresolved
    cases unresolved
  | ruleless resolves =>
    obtain ⟨found, meant⟩ := resolve_eq_ok.mp resolves
    exact .withoutRules _ _ fun furnished => (furnished _ _ _ found).rulesOf meant rfl
  | cycle => exact .cycle _

/-! ## Counting and listing -/

/-- Rules that are there, if the store is furnished, and whose references resolve. -/
structure Drawable (s : Store) (rules : List Rule) : Prop where
  nonempty : s.Furnished → rules ≠ []
  grounded : ∀ r ∈ rules, s.Grounded r.pieces

theorem Closed.drawable (closed : s.Closed) {t : Target} {d : Definition} {rules : List Rule}
    (resolves : s.resolve t = .ok (d, rules)) : s.Drawable rules where
  nonempty furnished := by
    obtain ⟨found, meant⟩ := resolve_eq_ok.mp resolves
    exact (furnished _ _ _ found).rulesOf meant
  grounded _ hr := closed.inRule resolves hr

theorem Closed.drawable_variation (closed : s.Closed) {kind : Kind} {name : String}
    {d : Definition} {v : Variation} (found : s.find? kind name = some d) (hv : v ∈ d.variations) :
    s.Drawable v.rules where
  nonempty furnished := (furnished _ _ _ found).2 v hv
  grounded r hr := closed _ _ _ found r (List.mem_flatMap.mpr ⟨v, hv, hr⟩)

theorem countRules_total (closed : s.Closed) {rules : List Rule} (drawable : s.Drawable rules)
    (trail : Trail) : ∃ c, s.countRules trail rules = .ok c :=
  counted_rules fun r hr =>
    (counted_of_sure s trail).2 r.pieces (sure_of_closed closed (drawable.grounded r hr))

/-- Where counting succeeds, the listing can only close a cycle. -/
theorem listRules_excusable {kind : Kind} {name : String} {rules : List Rule} {c : Combinations}
    {e : Error} (counted : s.countRules trail rules = .ok c)
    (h : s.listRules trail kind name rules = .error e) : s.Excusable e := by
  have tally := countRules_tally kind name
    fun r (_ : r ∈ rules) => countPieces_tally s trail r.pieces
  rw [counted, h] at tally
  cases tally with
  | unbounded chain => exact .cycle chain

end Store

/-! ## Generating -/

namespace Generator

variable {g : Generator} {intent : String} {rules : List Rule} {w : Words}

theorem expandRule_excused (closed : g.store.Closed) {r : Rule}
    (grounded : g.store.Grounded r.pieces) (trail : Trail) (pass : Pass) :
    FailsAs g.store.Excusable (g.store.expandRule trail r pass).1 :=
  Store.expandPieces_excusable closed grounded trail pass

theorem attempt_excused (closed : g.store.Closed) (drawable : g.store.Drawable rules)
    (target : Option Target) (w : Words) :
    FailsAs g.store.Excusable (g.attempt intent target rules w).1 := by
  apply attempt_fails
  · intro empty
    exact .withoutRules _ _ fun furnished => drawable.nonempty furnished empty
  · intro r hr pass
    exact expandRule_excused closed (drawable.grounded r hr) _ pass

theorem sample_excused (closed : g.store.Closed) (drawable : g.store.Drawable rules)
    (target : Option Target) (count : UInt64) (w : Words) :
    (g.sample intent target rules count w).1.FailsAs g.store.Excusable :=
  sample_fails (fun _ => .invalidCount _) (attempt_excused closed drawable target) w

theorem exhaust_excused (closed : g.store.Closed) (drawable : g.store.Drawable rules)
    (target : Target) (w : Words) :
    (g.exhaust intent target rules w).1.FailsAs g.store.Excusable := by
  obtain ⟨size, counted⟩ := Store.countRules_total closed drawable [target]
  apply exhaust_fails
  · rw [counted]
    exact failsAs_ok
  · intro _ _ _ e h
    exact Store.listRules_excusable counted h
  · intro _ _ _
    exact sample_excused closed drawable _ _ _

theorem block_excused (closed : g.store.Closed) {v : Variation}
    (drawable : g.store.Drawable v.rules) (w : Words) :
    (g.block intent v w).1.FailsAs g.store.Excusable := by
  unfold block
  dsimp only
  split
  · exact sample_excused closed drawable _ _ _
  · exact exhaust_excused closed drawable _ _

theorem blocks_excused (closed : g.store.Closed) {vs : List Variation}
    (drawable : ∀ v ∈ vs, g.store.Drawable v.rules) (w : Words) :
    (g.blocks intent vs w).1.FailsAs g.store.Excusable :=
  blocks_fails (fun v hv w => block_excused closed (drawable v hv) w) w

/-- An intent that is there, with a variation that is there, means variations of its own. -/
theorem selected_of_resolves {variation : Option String}
    (resolves : g.store.Resolves ⟨.intent, intent, variation⟩) :
    ∃ d vs, g.store.find? .intent intent = some d ∧ g.selected intent variation = .ok vs ∧
      ∀ v ∈ vs, v ∈ d.variations := by
  obtain ⟨d, found, known⟩ := resolves
  have got : g.store.get .intent intent = .ok d := by rw [Store.get, found]
  cases variation with
  | none => exact ⟨d, d.variations, found, by simp only [selected, got]; rfl, fun _ hv => hv⟩
  | some name =>
    obtain ⟨v, there⟩ := Option.isSome_iff_exists.mp (Store.isSome_variation?.mpr (known name rfl))
    refine ⟨d, [v], found, selected_named found there, fun w hw => ?_⟩
    cases List.mem_singleton.mp hw
    exact List.mem_of_find?_eq_some there

theorem generate_excused (closed : g.store.Closed) {variation : Option String}
    (resolves : g.store.Resolves ⟨.intent, intent, variation⟩) (w : Words) :
    (g.generate intent variation w).1.FailsAs g.store.Excusable := by
  obtain ⟨d, vs, found, selected, own⟩ := selected_of_resolves resolves
  rw [generate, selected]
  exact blocks_excused closed (fun v hv => closed.drawable_variation found (own v hv)) w

theorem generateCount_excused (closed : g.store.Closed) {variation : Option String}
    (resolves : g.store.Resolves ⟨.intent, intent, variation⟩) (count : UInt64) (w : Words) :
    (g.generateCount intent variation count w).1.FailsAs g.store.Excusable := by
  obtain ⟨d, rules, resolved⟩ := Store.resolves_iff.mp resolves
  apply generateCount_fails
  · exact .invalidCount _
  · rw [resolved]
    exact failsAs_ok
  · intro d' rules' resolves'
    exact sample_excused closed (closed.drawable resolves') _ _ _

/-- **What an empty report means.** Nothing is reported just where every reference in the rules of
the store resolves. Then no request for an intent of the store, or for a variation of it, fails
because something is not there, whatever the settings and the random words are; and where the store
comes from a template, a request can only fail by a cycle or by a count that cannot be given. -/
theorem dangling_eq_nil_generates (g : Generator) :
    (g.store.dangling = [] ↔ g.store.Closed) ∧
      (g.store.dangling = [] → ∀ intent variation, g.store.Resolves ⟨.intent, intent, variation⟩ →
        ∀ w e, ((g.generate intent variation w).1 = .error e ∨
            ∃ count, (g.generateCount intent variation count w).1 = .error e) →
          ¬ e.LeadsNowhere ∧
            ∀ fs text, Template.read fs text = .ok g.store →
              (∃ chain, e = .cycle chain) ∨ ∃ fault, e = .invalidCount fault) := by
  refine ⟨Store.dangling_eq_nil_iff, fun nothing intent variation resolves w e failed => ?_⟩
  have closed := Store.dangling_eq_nil_iff.mp nothing
  have excusable : g.store.Excusable e := by
    rcases failed with failed | ⟨count, failed⟩
    · exact generate_excused closed resolves w e failed
    · exact generateCount_excused closed resolves count w e failed
  exact ⟨excusable.leads,
    fun fs text loaded => excusable.of_furnished (Template.read_furnished loaded)⟩

/-- The rules of `hi` go in a circle and nothing is missing: a request fails, by the cycle. -/
theorem dangling_eq_nil_generates_circle : ∃ (g : Generator) (w : Words) (e : Error),
    Template.read {} "%[hi]\n  ~[a]\n~[a]\n  oh ~[a]\n" = .ok g.store ∧
    g.store.dangling = [] ∧ g.store.Closed ∧ g.store.Resolves ⟨.intent, "hi", none⟩ ∧
    (g.generate "hi" none w).1 = .error e ∧ ¬ e.LeadsNowhere ∧
    ((∃ chain, e = .cycle chain) ∨ ∃ fault, e = .invalidCount fault) := by
  let a : Target := ⟨.alias, "a", none⟩
  let s : Store := ⟨⟨[("a", ⟨"a", .alias, false, [⟨none, none,
    [⟨[.word "oh", .reference .alias "a" {}], none⟩]⟩]⟩)], by decide⟩, ∅,
    ⟨[("hi", ⟨"hi", .intent, false, [⟨none, none, [⟨[.reference .alias "a" {}], none⟩]⟩]⟩)],
      by decide⟩⟩
  let g : Generator := ⟨s, {}⟩
  let w : Words := ⟨fun _ => 0, 0⟩
  have loaded : Template.read {} "%[hi]\n  ~[a]\n~[a]\n  oh ~[a]\n" = .ok g.store := by cbv
  have nothing : g.store.dangling = [] := by decide
  have known : g.store.checkTarget .intent "" ⟨.intent, "hi", none⟩ = none := by decide
  have resolves := Store.checkTarget_eq_none.mp known
  have failed : (g.generate "hi" none w).1 = .error (.cycle [a, a]) := by cbv
  have promise := (dangling_eq_nil_generates g).2 nothing "hi" none resolves w _ (.inl failed)
  exact ⟨g, w, _, loaded, nothing, (dangling_eq_nil_generates g).1.mp nothing, resolves, failed,
    promise.1, promise.2 {} _ loaded⟩

end Generator
end Phrasebook
