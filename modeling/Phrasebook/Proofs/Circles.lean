import Mathlib.Data.List.Chain
import Phrasebook.Proofs.Attempts
import Phrasebook.Proofs.Failures

/-!
# The cycles that are reported

An error that tells of a cycle lists the targets on it, the first of them again at the end.

* `Store.Mentions`, `Store.Circle`: what a cycle is, by the rules of the definitions and the
  references in them, with nothing said of a walk;
* `Store.Leading`: the trail behind a walk follows such references, and so does every one that is
  still to come. `Visits.leading`: wherever a walk comes to, this holds there;
* `Halts.circle`: so what is cut out of the trail where it closes is a cycle;
* `Generator.Reports`: the errors of expanding and listing from an empty trail, and of requests;
* `Reports.circle`: each cycle among them is one of the store.
-/

namespace Phrasebook

namespace Store

/-- In a rule of the target, at any depth of groups, there is a reference to the other one. A target
that names no variation has the rules of all of them. -/
def Mentions (s : Store) (t other : Target) : Prop :=
  ∃ d, s.find? t.kind t.name = some d ∧
    ∃ v ∈ d.variations, (t.variation = none ∨ v.name = t.variation) ∧
      ∃ r ∈ v.rules, Piece.Refers (fun _ => True) r.pieces other

/-- Targets that are all different, each with a reference to the next, and the last with one to the
first. -/
structure Circle (s : Store) (first : Target) (others : List Target) : Prop where
  apart : (first :: others).Nodup
  linked : (first :: others ++ [first]).IsChain s.Mentions

/-- A trail along references, innermost first, that every reference in the pieces goes on with. -/
structure Leading (s : Store) (trail : Trail) (pieces : List Piece) : Prop where
  apart : trail.Nodup
  linked : ∀ t, Piece.Refers (fun _ => True) pieces t →
    (t :: trail).IsChain fun inner outer => s.Mentions outer inner

section
variable {s : Store} {trail later : Trail} {t : Target} {p : Piece} {pieces rest : List Piece}

theorem mentions_of_variation {d : Definition} {v : Variation} {r : Rule}
    (found : s.find? t.kind t.name = some d) (own : v ∈ d.variations)
    (meant : t.variation = none ∨ v.name = t.variation) (known : r ∈ v.rules) {other : Target}
    (refers : Piece.Refers (fun _ => True) r.pieces other) : s.Mentions t other :=
  ⟨d, found, v, own, meant, r, known, refers⟩

/-- The rules that a reference draws from are rules of its target. -/
theorem mentions_of_resolve {d : Definition} {rules : List Rule} {r : Rule}
    (resolves : s.resolve t = .ok (d, rules)) (known : r ∈ rules) {other : Target}
    (refers : Piece.Refers (fun _ => True) r.pieces other) : s.Mentions t other := by
  obtain ⟨found, meant⟩ := resolve_eq_ok.mp resolves
  cases named : t.variation with
  | none =>
    simp only [named, Definition.rulesOf, Except.ok.injEq] at meant
    subst meant
    obtain ⟨v, own, known⟩ := List.mem_flatMap.mp known
    exact mentions_of_variation found own (.inl named) known refers
  | some name =>
    simp only [named, Definition.rulesOf] at meant
    split at meant
    · next v there =>
      cases meant
      have same : v.name = t.variation := by simpa [named] using List.find?_some there
      exact mentions_of_variation found (List.mem_of_find?_eq_some there) (.inr same) known refers
    · cases meant

/-! ## Along a walk -/

theorem leading_nil (s : Store) (pieces : List Piece) : s.Leading [] pieces where
  apart := .nil
  linked := by simp

/-- Pieces in which a target mentions all that they refer to can follow on it. -/
theorem leading_one (mentions : ∀ other, Piece.Refers (fun _ => True) pieces other →
    s.Mentions t other) : s.Leading [t] pieces where
  apart := by simp
  linked other refers := by simpa using mentions other refers

theorem Leading.group {value : Option String} {m : Modifiers}
    (h : s.Leading trail (.group pieces value m :: rest)) : s.Leading trail pieces where
  apart := h.apart
  linked t refers := h.linked t (.inGroup trivial refers)

theorem Leading.tail (h : s.Leading trail (p :: rest)) : s.Leading trail rest where
  apart := h.apart
  linked t refers := h.linked t (.later refers)

theorem Leading.inRule {kind : Kind} {name : String} {m : Modifiers} {longer : Trail}
    {d : Definition} {rules : List Rule} {r : Rule}
    (h : s.Leading trail (.reference kind name m :: rest))
    (resolves : s.resolve ⟨kind, name, m.variation⟩ = .ok (d, rules)) (known : r ∈ rules)
    (steps : trail.step? ⟨kind, name, m.variation⟩ = some longer) : s.Leading longer r.pieces := by
  simp only [Trail.step?, ite_eq_iff, reduceCtorEq, and_false, false_or, Option.some.injEq] at steps
  obtain ⟨absent, rfl⟩ := steps
  constructor
  · exact List.nodup_cons.mpr ⟨absent, h.apart⟩
  · intro other refers
    apply List.isChain_cons_cons.mpr
    exact ⟨mentions_of_resolve resolves known refers, h.linked _ (.reference trivial)⟩

theorem Visits.leading (h : s.Visits (fun _ => True) trail pieces later t)
    (start : s.Leading trail pieces) :
    later.Nodup ∧ (t :: later).IsChain fun inner outer => s.Mentions outer inner := by
  induction h with
  | reference there => exact ⟨start.apart, start.linked _ (.reference there)⟩
  | inGroup _ _ ih => exact ih start.group
  | inRule _ resolves known steps _ ih => exact ih (start.inRule resolves known steps)
  | after _ ih => exact ih start.tail

/-! ## Where a trail closes -/

/-- Stepping back onto a target of the trail closes a circle of the targets from there on. -/
theorem circle_of_trail (apart : trail.Nodup)
    (linked : (t :: trail).IsChain fun inner outer => s.Mentions outer inner) (there : t ∈ trail) :
    ∃ first others, s.Circle first others ∧ trail.cycle t = first :: others ++ [first] := by
  obtain ⟨inner, outer, rfl, absent⟩ := List.eq_append_cons_of_mem there
  have cut : (inner ++ t :: outer).takeWhile (· ≠ t) = inner := by
    rw [List.takeWhile_append_of_pos]
    · simp
    · intro other member
      simpa using fun same : other = t => absent (same ▸ member)
  have closes : (t :: inner ++ [t]).IsChain fun inner outer => s.Mentions outer inner := by
    apply linked.prefix
    simp
  refine ⟨t, inner.reverse, ?_, by rw [Trail.cycle, cut]⟩
  constructor
  · have once := apart.sublist (List.sublist_append_left inner _)
    simpa [absent, (List.reverse_perm inner).nodup_iff] using once
  · -- the trail has its innermost target first, the report its outermost
    have turned : t :: inner.reverse ++ [t] = (t :: inner ++ [t]).reverse := by simp
    rw [turned]
    exact List.isChain_reverse.mpr closes

/-- If the error tells of a cycle, the cycle is there. -/
def TellsTrue (s : Store) (e : Error) : Prop :=
  ∀ chain, e = .cycle chain →
    ∃ first others, s.Circle first others ∧ chain = first :: others ++ [first]

theorem tellsTrue_of_resolve {e : Error} (unresolved : s.resolve t = .error e) :
    s.TellsTrue e := by
  obtain ⟨kind, name, rfl⟩ | ⟨kind, name, variation, rfl⟩ := missing_of_resolve unresolved
  · nofun
  · nofun

theorem FailsAlong.tellsTrue {e : Error}
    (h : s.FailsAlong (fun _ => True) s.Halts trail pieces e) (start : s.Leading trail pieces) :
    s.TellsTrue e := by
  obtain ⟨later, t, visits, halts⟩ := h
  obtain ⟨apart, linked⟩ := visits.leading start
  cases halts with
  | unresolved resolves => exact tellsTrue_of_resolve resolves
  | ruleless => nofun
  | cycle _ steps =>
    rintro chain ⟨⟩
    have there : t ∈ later := by simpa [Trail.step?] using steps
    exact circle_of_trail apart linked there

end

/-! ## Expanding, counting and listing -/

section
variable {s : Store} {trail : Trail} {pieces : List Piece} {rules : List Rule}

theorem expandPieces_tellsTrue (start : s.Leading trail pieces) (pass : Pass) :
    FailsAs s.TellsTrue (s.expandPieces trail pieces pass).1 :=
  (s.expandPieces_halts trail pieces pass).mono fun _ fails => fails.tellsTrue start

theorem listPieces_tellsTrue (start : s.Leading trail pieces) :
    FailsAs s.TellsTrue (s.listPieces trail pieces) :=
  (s.listPieces_halts trail pieces).mono fun _ fails => fails.tellsTrue start

/-- Counting tells of no cycle at all. -/
theorem countRules_tellsTrue (s : Store) (trail : Trail) (rules : List Rule) :
    FailsAs s.TellsTrue (s.countRules trail rules) := by
  apply countRules_fails
  intro r _
  refine (s.countPieces_halts trail r.pieces).mono ?_
  rintro e ⟨later, t, _, unresolved⟩
  exact tellsTrue_of_resolve unresolved

end
end Store

/-! ## Requests -/

namespace Generator

variable {g : Generator} {intent : String} {rules : List Rule}

/-- The errors that there can be when nothing has been walked before: of one rule that is expanded
or listed, with a trail of its own or with one that is changed in place, and of requests. -/
inductive Reports (g : Generator) : Error → Prop
  | expanding {r pass e} (failed : (g.store.expandRule [] r pass).1 = .error e) : Reports g e
  | expandingIn {r c e last} (fresh : c.trail = [])
      (failed : (g.store.expandRuleIn r).on c = some (.error e, last)) : Reports g e
  | listing {r e} (failed : g.store.listRule [] r = .error e) : Reports g e
  | listingOn {r e last} (failed : (g.store.listRuleOn r).on [] = some (.error e, last)) :
      Reports g e
  | generating {intent variation w e} (failed : (g.generate intent variation w).1 = .error e) :
      Reports g e
  | counted {intent variation count w e}
      (failed : (g.generateCount intent variation count w).1 = .error e) : Reports g e
  | ruled {r count w e} (failed : (g.generateRule r count w).1 = .error e) : Reports g e

/-- The trail on which the rules are expanded goes along references to them. -/
def Led (g : Generator) (trail : Trail) (rules : List Rule) : Prop :=
  ∀ r ∈ rules, g.store.Leading trail r.pieces

theorem attempt_tellsTrue {target : Option Target} (led : g.Led target.toList rules) (w : Words) :
    FailsAs g.store.TellsTrue (g.attempt intent target rules w).1 := by
  apply attempt_fails
  · exact fun _ => nofun
  · exact fun r known pass => Store.expandPieces_tellsTrue (led r known) pass

theorem sample_tellsTrue {target : Option Target} (led : g.Led target.toList rules)
    (count : UInt64) (w : Words) :
    (g.sample intent target rules count w).1.FailsAs g.store.TellsTrue :=
  sample_fails (fun _ => nofun) (attempt_tellsTrue led) w

theorem block_tellsTrue {v : Variation} (led : g.Led [⟨.intent, intent, v.name⟩] v.rules)
    (w : Words) : (g.block intent v w).1.FailsAs g.store.TellsTrue := by
  unfold block
  dsimp only
  split
  · exact sample_tellsTrue led _ w
  · apply exhaust_fails
    · exact g.store.countRules_tellsTrue _ _
    · intro _ _ _
      exact Store.listRules_fails fun r known => Store.listPieces_tellsTrue (led r known)
    · intro _ _ _
      exact sample_tellsTrue led _ w

theorem selected_tellsTrue (variation : Option String) :
    FailsAs g.store.TellsTrue (g.selected intent variation) :=
  selected_fails nofun (fun _ => nofun) variation

theorem generate_tellsTrue (variation : Option String) (w : Words) :
    (g.generate intent variation w).1.FailsAs g.store.TellsTrue := by
  apply generate_fails (selected_tellsTrue variation)
  intro vs selected v hv w
  obtain ⟨d, found, own⟩ := mem_variations_of_selected selected
  apply block_tellsTrue
  intro r known
  apply Store.leading_one
  intro other refers
  exact Store.mentions_of_variation found (own v hv) (.inr rfl) known refers

theorem generateCount_tellsTrue (variation : Option String) (count : UInt64) (w : Words) :
    (g.generateCount intent variation count w).1.FailsAs g.store.TellsTrue := by
  apply generateCount_fails
  · nofun
  · exact fun e unresolved => Store.tellsTrue_of_resolve unresolved
  · intro d rules resolves
    apply sample_tellsTrue
    intro r known
    exact Store.leading_one fun other refers => Store.mentions_of_resolve resolves known refers

theorem generateRule_tellsTrue (r : Rule) (count : UInt64) (w : Words) :
    (g.generateRule r count w).1.FailsAs g.store.TellsTrue := by
  apply generateRule_fails
  · nofun
  · apply sample_tellsTrue
    exact fun r _ => g.store.leading_nil r.pieces

theorem Reports.tellsTrue {e : Error} (h : g.Reports e) : g.store.TellsTrue e := by
  cases h with
  | expanding failed => exact Store.expandPieces_tellsTrue (g.store.leading_nil _) _ e failed
  | @expandingIn r c _ _ fresh failed =>
    obtain ⟨later, added, ran, _⟩ := g.store.returns_expandRuleIn r c
    rw [ran, fresh] at failed
    simp only [Option.some.injEq, Prod.mk.injEq] at failed
    exact Store.expandPieces_tellsTrue (g.store.leading_nil _) _ e failed.1
  | listing failed => exact Store.listPieces_tellsTrue (g.store.leading_nil _) e failed
  | listingOn failed =>
    rw [Store.on_listRuleOn] at failed
    simp only [Option.some.injEq, Prod.mk.injEq] at failed
    exact Store.listPieces_tellsTrue (g.store.leading_nil _) e failed.1
  | generating failed => exact generate_tellsTrue _ _ e failed
  | counted failed => exact generateCount_tellsTrue _ _ _ e failed
  | ruled failed => exact generateRule_tellsTrue _ _ _ e failed

/-- **Reported cycles are real.** Where expanding or listing a rule from an empty trail fails by a
cycle, or a request does, the targets that the message lists are all different, up to the first,
which it ends with again, and in the rules of each there is a reference to the next. -/
theorem reports_circle (g : Generator) {chain : List Target} (reported : g.Reports (.cycle chain)) :
    ∃ first others, g.store.Circle first others ∧ chain = first :: others ++ [first] ∧
      (Error.cycle chain).message = "resolution cycle: " ++
        " -> ".intercalate ((first :: others ++ [first]).map Target.written) := by
  obtain ⟨first, others, circle, rfl⟩ := reported.tellsTrue chain rfl
  exact ⟨first, others, circle, rfl, rfl⟩

/-- The intent refers to a variation of an alias, whose rule has the intent in a group. -/
theorem reports_circle_back : ∃ (g : Generator) (chain : List Target),
    g.Reports (.cycle chain) ∧
      (Error.cycle chain).message = "resolution cycle: %[hi] -> ~[a#x] -> %[hi]" ∧
      ∃ first others, g.store.Circle first others ∧ chain = first :: others ++ [first] ∧
        (Error.cycle chain).message = "resolution cycle: " ++
          " -> ".intercalate ((first :: others ++ [first]).map Target.written) := by
  let hi : Target := ⟨.intent, "hi", none⟩
  let a : Target := ⟨.alias, "a", some "x"⟩
  let back : Piece := .group [.word "my", .reference .intent "hi" {}] none {}
  let s : Store := ⟨⟨[("a", ⟨"a", .alias, false, [⟨some "x", none, [⟨[.word "oh", back], none⟩]⟩,
      ⟨some "y", none, [⟨[.word "ah"], none⟩]⟩]⟩)], by decide⟩, ∅,
    ⟨[("hi", ⟨"hi", .intent, false, [⟨none, none,
      [⟨[.reference .alias "a" { variation := some "x" }], none⟩]⟩]⟩)], by decide⟩⟩
  let g : Generator := ⟨s, {}⟩
  let w : Words := ⟨fun _ => 0, 0⟩
  have failed : (g.generate "hi" none w).1 = .error (.cycle [hi, a, hi]) := by cbv
  have reported : g.Reports (.cycle [hi, a, hi]) := .generating failed
  have message : (Error.cycle [hi, a, hi]).message =
    "resolution cycle: %[hi] -> ~[a#x] -> %[hi]" := rfl
  exact ⟨g, _, reported, message, reports_circle g reported⟩

end Generator
end Phrasebook
