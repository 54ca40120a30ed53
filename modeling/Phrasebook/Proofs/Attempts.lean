import Mathlib
import Phrasebook.Generator
import Phrasebook.Proofs.Calls
import Phrasebook.Proofs.Outcome
import Phrasebook.Rule.Reader

/-!
# What is kept of the attempts

Sampling makes attempts until it has as many examples as are wanted. One whose text was made before
is dropped as long as the budget for this lasts.

* `Generator.Sampled`: how far a run of attempts has come, with one rule for each thing that can
  become of an attempt;
* `Sampled.sublist`, `Sampled.length_made`, `Sampled.nodup`: what every such run keeps;
* `gather_ends`: the loop goes from one such run to a longer one, until it has enough or an attempt
  fails;
* `sample_ends`: so does sampling, from a run without attempts;
* `blocks_eq_error`: the blocks of a request fail at the first of them that fails;
* `attempt_fails`, `sample_fails`, `exhaust_fails`, `blocks_fails` and those after them: generating
  fails with what expanding, counting and listing fail with, with the count, or with what is asked
  for.

Mathlib is imported whole: a single run is evaluated with equations from all over it.
-/

namespace Phrasebook

theorem Pass.choose_of_words {α : Type} {values : List α} {value : Option α} {w next : Words}
    (h : w.choose values = (value, next)) :
    (⟨w, []⟩ : Pass).choose values = (value, ⟨next, []⟩) := by
  simp only [choose, h]

namespace Generator

/-- The examples made so far, those of them that are kept, how many were dropped, and the words that
are left. Each attempt is made with the words that the one before it left, and none when there are
enough. -/
inductive Sampled (attempt : Words → Outcome Example × Words) (count budget : Nat) (start : Words) :
    List Example → List Example → Nat → Words → Prop
  | nothing : Sampled attempt count budget start [] [] 0 start
  | fresh {made kept dropped w e next}
      (before : Sampled attempt count budget start made kept dropped w)
      (wanted : kept.length < count) (success : attempt w = (.ok e, next))
      (new : ∀ other ∈ made, other.text ≠ e.text) :
      Sampled attempt count budget start (made ++ [e]) (kept ++ [e]) dropped next
  | dropped {made kept dropped w e next}
      (before : Sampled attempt count budget start made kept dropped w)
      (wanted : kept.length < count) (success : attempt w = (.ok e, next))
      (again : ∃ other ∈ made, other.text = e.text) (left : dropped < budget) :
      Sampled attempt count budget start (made ++ [e]) kept (dropped + 1) next
  | repeated {made kept dropped w e next}
      (before : Sampled attempt count budget start made kept dropped w)
      (wanted : kept.length < count) (success : attempt w = (.ok e, next))
      (again : ∃ other ∈ made, other.text = e.text) (spent : dropped = budget) :
      Sampled attempt count budget start (made ++ [e]) (kept ++ [e]) dropped next

variable {attempt : Words → Outcome Example × Words} {count budget : Nat} {start w : Words}
  {made kept : List Example} {dropped : Nat}

namespace Sampled

/-- What is kept is kept in the order of the attempts. -/
theorem sublist (h : Sampled attempt count budget start made kept dropped w) :
    kept.Sublist made := by
  induction h with
  | nothing => exact List.Sublist.slnil
  | fresh _ _ _ _ ih => exact ih.append (List.Sublist.refl _)
  | dropped _ _ _ _ _ ih => exact ih.trans (List.sublist_append_left _ _)
  | repeated _ _ _ _ _ ih => exact ih.append (List.Sublist.refl _)

theorem dropped_le (h : Sampled attempt count budget start made kept dropped w) :
    dropped ≤ budget := by
  induction h with
  | nothing => exact Nat.zero_le budget
  | fresh _ _ _ _ ih => exact ih
  | dropped _ _ _ _ left _ => exact left
  | repeated _ _ _ _ _ ih => exact ih

theorem length_made (h : Sampled attempt count budget start made kept dropped w) :
    made.length = kept.length + dropped := by
  induction h with
  | nothing => rfl
  | fresh _ _ _ _ ih => simp only [List.length_append, List.length_singleton]; omega
  | dropped _ _ _ _ _ ih => simp only [List.length_append, List.length_singleton]; omega
  | repeated _ _ _ _ _ ih => simp only [List.length_append, List.length_singleton]; omega

/-- No text is kept twice before the budget is spent. -/
theorem nodup (h : Sampled attempt count budget start made kept dropped w)
    (unspent : dropped < budget) : (kept.map (·.text)).Nodup := by
  induction h with
  | nothing => exact List.nodup_nil
  | @fresh made kept _ _ e _ before _ _ new ih =>
    have apart : ∀ text ∈ kept.map (·.text), text ≠ e.text := by
      intro text ht
      obtain ⟨other, kept, rfl⟩ := List.mem_map.mp ht
      exact new other (before.sublist.subset kept)
    rw [List.map_append, List.nodup_append]
    refine ⟨ih unspent, by simp, ?_⟩
    intro text ht other ho
    simp only [List.map_cons, List.map_nil, List.mem_singleton] at ho
    exact ho ▸ apart text ht
  | dropped _ _ _ _ _ ih => exact ih (by omega)
  | repeated _ _ _ _ spent _ => omega

end Sampled

/-- How a run of attempts ends: it has enough, or the next attempt fails. -/
inductive Ends (attempt : Words → Outcome Example × Words) (count budget : Nat) (start : Words) :
    Outcome (List Example) × Words → Prop
  | enough {made kept dropped last}
      (run : Sampled attempt count budget start made kept dropped last)
      (all : kept.length = count) : Ends attempt count budget start (.ok kept, last)
  | failed {made kept dropped w e last}
      (run : Sampled attempt count budget start made kept dropped w) (wanted : kept.length < count)
      (failure : attempt w = (.error e, last)) : Ends attempt count budget start (.error e, last)

/-- The texts that were seen are those of the attempts. -/
def Recalls (seen : Std.HashSet String) (made : List Example) : Prop :=
  ∀ text, text ∈ seen ↔ ∃ e ∈ made, e.text = text

theorem Recalls.insert {seen : Std.HashSet String} (h : Recalls seen made) (e : Example) :
    Recalls (seen.insert e.text) (made ++ [e]) := by
  intro text
  simp only [Std.HashSet.mem_insert, beq_iff_eq, h text, List.mem_append, List.mem_singleton]
  grind

theorem Recalls.again {seen : Std.HashSet String} (h : Recalls seen made) {e : Example}
    (repeated : e.text ∈ seen) : Recalls seen (made ++ [e]) := by
  intro text
  simp only [h text, List.mem_append, List.mem_singleton]
  obtain ⟨other, there, same⟩ := (h e.text).mp repeated
  grind

/-- The loop goes on with the run that it has behind it. -/
theorem gather_ends {needed spare : Nat} {seen : Std.HashSet String} {held : Array Example}
    (run : Sampled attempt count budget start made held.toList dropped w)
    (needs : held.toList.length + needed = count) (left : dropped + spare = budget)
    (known : Recalls seen made) :
    Ends attempt count budget start (gather attempt needed spare seen held w) := by
  fun_induction gather attempt needed spare seen held w generalizing made dropped with
  | case1 spare seen held w => exact .enough run needs
  | case2 spare seen held w needed e next failure => exact .failed run (by omega) failure
  | case3 seen held w needed e next success repeated spare ih =>
    have again := (known e.text).mp repeated
    have longer := run.dropped (by omega) success again (by omega)
    exact ih longer needs (by omega) (known.again repeated)
  | case4 seen held w needed e next success repeated ih =>
    have again := (known e.text).mp repeated
    have pushed : (held.push e).toList = held.toList ++ [e] := Array.toList_push
    have longer := run.repeated (by omega) success again (by omega)
    rw [← pushed] at longer
    apply ih longer
    · simp only [pushed, List.length_append, List.length_singleton]
      omega
    · exact left
    · exact known.again repeated
  | case5 spare seen held w needed e next success fresh ih =>
    have new : ∀ other ∈ made, other.text ≠ e.text := by
      intro other there same
      exact fresh ((known e.text).mpr ⟨other, there, same⟩)
    have pushed : (held.push e).toList = held.toList ++ [e] := Array.toList_push
    have longer := run.fresh (by omega) success new
    rw [← pushed] at longer
    apply ih longer
    · simp only [pushed, List.length_append, List.length_singleton]
      omega
    · exact left
    · exact known.insert e

section
variable (g : Generator) (intent : String) (target : Option Target) (rules : List Rule)
  {wanted : UInt64}

theorem sample_above (above : g.settings.maxCount < wanted) (w : Words) :
    g.sample intent target rules wanted w =
      (.error (.invalidCount (.aboveLimit wanted g.settings.maxCount)), w) :=
  if_pos above

theorem sample_beyond (within : wanted ≤ g.settings.maxCount) (beyond : room < wanted.toNat)
    (w : Words) : g.sample intent target rules wanted w = (.overflow, w) := by
  rw [sample, if_neg (by simpa using within), if_pos beyond]

theorem sample_within (within : wanted ≤ g.settings.maxCount) (fits : wanted.toNat ≤ room)
    (w : Words) : ∃ outcome last, g.sample intent target rules wanted w = (.of outcome, last) ∧
      Ends (g.attempt intent target rules) wanted.toNat
        (min (wanted.toNat * g.settings.dedupFactor.toNat) 0xFFFFFFFFFFFFFFFF) w
        (outcome, last) := by
  rw [sample, if_neg (by simpa using within), if_neg (Nat.not_lt.mpr fits)]
  simp only [toNat_capped]
  exact ⟨_, _, rfl, gather_ends .nothing (Nat.zero_add _) (Nat.zero_add _) (by simp [Recalls])⟩

/-- Sampling is refused, or cannot be laid out, or goes attempt by attempt. -/
theorem sample_cases (wanted : UInt64) (w : Words) :
    (g.settings.maxCount < wanted ∧ g.sample intent target rules wanted w =
        (.error (.invalidCount (.aboveLimit wanted g.settings.maxCount)), w)) ∨
      g.sample intent target rules wanted w = (.overflow, w) ∨
      ∃ outcome last, g.sample intent target rules wanted w = (.of outcome, last) ∧
        Ends (g.attempt intent target rules) wanted.toNat
          (min (wanted.toNat * g.settings.dedupFactor.toNat) 0xFFFFFFFFFFFFFFFF) w
          (outcome, last) := by
  by_cases above : g.settings.maxCount < wanted
  · exact .inl ⟨above, sample_above g intent target rules above w⟩
  · have within := UInt64.not_lt.mp above
    by_cases beyond : room < wanted.toNat
    · exact .inr (.inl (sample_beyond g intent target rules within beyond w))
    · exact .inr (.inr (sample_within g intent target rules within (Nat.not_lt.mp beyond) w))

end

/-- **Sampling, attempt by attempt.** More than the limit is refused before any word is taken, and
more than a list has room for stops the program there. Else an attempt with a new text is kept, and
one whose text was made before is kept only when as many were dropped as there are spare ones for
the count. Sampling stops with the words of the first attempt that fails, and with its error, or
when it has as many examples as are wanted: these are all different, unless the budget was spent. -/
theorem sample_ends (g : Generator) (intent : String) (target : Option Target) (rules : List Rule)
    (count : UInt64) (w : Words) :
    let attempt := g.attempt intent target rules
    let budget := min (count.toNat * g.settings.dedupFactor.toNat) 0xFFFFFFFFFFFFFFFF
    (g.settings.maxCount < count → g.sample intent target rules count w =
        (.error (.invalidCount (.aboveLimit count g.settings.maxCount)), w)) ∧
      (count ≤ g.settings.maxCount → room < count.toNat →
        g.sample intent target rules count w = (.overflow, w)) ∧
      (count ≤ g.settings.maxCount → count.toNat ≤ room → ∃ made kept dropped last,
        Sampled attempt count.toNat budget w made kept dropped last ∧
        kept.Sublist made ∧ dropped ≤ budget ∧
        (dropped ≠ budget → (kept.map (·.text)).Nodup) ∧
        ((g.sample intent target rules count w = (.ok kept, last) ∧ kept.length = count.toNat ∧
            made.length ≤ count.toNat + budget) ∨
          ∃ e after, attempt last = (.error e, after) ∧
            g.sample intent target rules count w = (.error e, after) ∧
            kept.length < count.toNat ∧ made.length + 1 ≤ count.toNat + budget)) := by
  intro attempt budget
  refine ⟨fun above => sample_above g intent target rules above w,
    fun within beyond => sample_beyond g intent target rules within beyond w,
    fun within fits => ?_⟩
  obtain ⟨outcome, end', sampled, ends⟩ := sample_within g intent target rules within fits w
  rw [sampled]
  cases ends with
  | @enough made kept dropped last run all =>
    have lengths := run.length_made
    have few := run.dropped_le
    refine ⟨made, kept, dropped, _, run, run.sublist, few, ?_, .inl ⟨rfl, all, by omega⟩⟩
    intro unspent
    exact run.nodup (by omega)
  | @failed made kept dropped left e last run wanted failure =>
    have lengths := run.length_made
    have few := run.dropped_le
    refine ⟨made, kept, dropped, left, run, run.sublist, few, ?_,
      .inr ⟨e, _, failure, rfl, wanted, by omega⟩⟩
    intro unspent
    exact run.nodup (by omega)

/-- Where every count is admitted, the largest one is not answered, though the first attempt would
fail. -/
theorem sample_overflows : ∃ (g : Generator) (count : UInt64) (r : Rule) (w : Words) (e : Error),
    Rule.read "~[missing]" = .ok r ∧ count ≤ g.settings.maxCount ∧
      (g.attempt "" none [r] w).1 = .error e ∧ g.sample "" none [r] count w = (.overflow, w) := by
  let g : Generator := ⟨∅, { maxCount := 0xFFFFFFFFFFFFFFFF }⟩
  let r : Rule := ⟨[.reference .alias "missing" {}], none⟩
  let w : Words := ⟨fun _ => 0, 0⟩
  have read : Rule.read "~[missing]" = .ok r := by cbv
  have failed : (g.attempt "" none [r] w).1 = .error (.undeclared .alias "missing") := by cbv
  have within : (0xFFFFFFFFFFFFFFFF : UInt64) ≤ g.settings.maxCount := by decide
  exact ⟨g, 0xFFFFFFFFFFFFFFFF, r, w, _, read, within, failed,
    sample_beyond g "" none [r] within (by decide) w⟩

/-! ## Failures -/

section
variable {g : Generator} {intent : String} {target : Option Target} {rules : List Rule}
  {P : Error → Prop}

theorem attempt_fails (ruleless : rules = [] → P (.withoutRules .intent intent))
    (each : ∀ r ∈ rules, ∀ pass, FailsAs P (g.store.expandRule target.toList r pass).1)
    (w : Words) : FailsAs P (g.attempt intent target rules w).1 := by
  unfold attempt
  split
  · next draws =>
    exact failsAs_error.mpr (ruleless (Store.choose_none (Pass.choose_of_words draws)))
  · next r w draws =>
    have expanded := each r (Store.mem_of_choose (Pass.choose_of_words draws))
    apply FailsAs.map
    cases target with
    | none => exact expanded ⟨w, []⟩
    | some t =>
      have steps : Trail.step? [] t = some [t] := if_neg List.not_mem_nil
      dsimp only
      rw [Store.expandWithin_of_step? steps]
      exact expanded ⟨w, []⟩

theorem sample_fails {count : UInt64}
    (above : g.settings.maxCount < count →
      P (.invalidCount (.aboveLimit count g.settings.maxCount)))
    (each : ∀ w, FailsAs P (g.attempt intent target rules w).1) (w : Words) :
    (g.sample intent target rules count w).1.FailsAs P := by
  rcases sample_cases g intent target rules count w with
    ⟨more, refused⟩ | overflows | ⟨outcome, last, sampled, ends⟩
  · rw [refused]
    exact Answer.failsAs_error.mpr (above more)
  · rw [overflows]
    exact Answer.failsAs_overflow
  · rw [sampled]
    cases ends with
    | enough => exact Answer.failsAs_ok
    | @failed _ _ _ left _ _ _ _ failure =>
      have fails := each left
      rw [failure] at fails
      exact Answer.failsAs_error.mpr (failsAs_error.mp fails)

theorem exhaust_fails {target : Target} {w : Words}
    (counting : FailsAs P (g.store.countRules [target] rules))
    (listing : ∀ size, g.store.countRules [target] rules = .ok size →
      size.fits g.settings.maxEnumeration = true →
      FailsAs P (g.store.listRules [target] target.kind target.name rules))
    (sampling : ∀ size, g.store.countRules [target] rules = .ok size →
      size.fits g.settings.maxEnumeration = false →
      (g.sample intent (some target) rules g.settings.fallback w).1.FailsAs P) :
    (g.exhaust intent target rules w).1.FailsAs P := by
  unfold exhaust
  split
  · next e failed => exact Answer.failsAs_error.mpr (counting e failed)
  · next size counted =>
    by_cases fits : size.fits g.settings.maxEnumeration = true
    · rw [if_pos fits]
      exact Answer.failsAs_of.mpr ((listing size counted fits).map _)
    · rw [if_neg fits]
      exact sampling size counted (Bool.not_eq_true _ ▸ fits)

theorem blocks_cons_eq_ok {v : Variation} {rest : List Variation} {w last : Words}
    {examples : List Example} :
    g.blocks intent (v :: rest) w = (.ok examples, last) ↔
      ∃ own next others, g.block intent v w = (.ok own, next) ∧
        g.blocks intent rest next = (.ok others, last) ∧ own ++ others = examples := by
  rw [blocks]
  cases first : g.block intent v w with
  | mk answer next =>
    cases answer with
    | ok own =>
      dsimp only
      constructor
      · intro made
        obtain ⟨joined, rfl⟩ := Prod.mk.inj made
        obtain ⟨others, after, rfl⟩ := Answer.map_eq_ok.mp joined
        exact ⟨own, next, others, rfl, Prod.ext after rfl, rfl⟩
      · rintro ⟨_, _, others, same, after, rfl⟩
        cases same
        rw [after]
        rfl
    | error e => simp
    | overflow => simp

theorem blocks_cons_eq_error {v : Variation} {rest : List Variation} {w last : Words} {e : Error} :
    g.blocks intent (v :: rest) w = (.error e, last) ↔
      g.block intent v w = (.error e, last) ∨
        ∃ own next, g.block intent v w = (.ok own, next) ∧
          g.blocks intent rest next = (.error e, last) := by
  rw [blocks]
  cases first : g.block intent v w with
  | mk answer next =>
    cases answer with
    | ok own =>
      dsimp only
      constructor
      · intro failed
        obtain ⟨later, rfl⟩ := Prod.mk.inj failed
        exact .inr ⟨own, next, rfl, Prod.ext (Answer.map_eq_error.mp later) rfl⟩
      · rintro (failed | ⟨_, _, same, after⟩)
        · cases failed
        · cases same
          rw [after]
          rfl
    | error e => simp
    | overflow => simp

/-- Blocks fail at the first of them that fails. -/
theorem blocks_eq_error {vs : List Variation} {w last : Words} {e : Error} :
    g.blocks intent vs w = (.error e, last) ↔
      ∃ before v after examples next, vs = before ++ v :: after ∧
        g.blocks intent before w = (.ok examples, next) ∧
        g.block intent v next = (.error e, last) := by
  constructor
  · intro failed
    induction vs generalizing w with
    | nil => cases failed
    | cons v rest ih =>
      rcases blocks_cons_eq_error.mp failed with first | ⟨own, next, first, later⟩
      · exact ⟨[], v, rest, [], w, rfl, rfl, first⟩
      · obtain ⟨before, v', after, others, next', rfl, made, stopped⟩ := ih later
        have longer := blocks_cons_eq_ok.mpr ⟨own, next, others, first, made, rfl⟩
        exact ⟨v :: before, v', after, own ++ others, next', rfl, longer, stopped⟩
  · rintro ⟨before, v, after, examples, next, rfl, made, stopped⟩
    induction before generalizing w examples with
    | nil =>
      cases made
      exact blocks_cons_eq_error.mpr (.inl stopped)
    | cons v' before ih =>
      obtain ⟨own, next', others, first, made', _⟩ := blocks_cons_eq_ok.mp made
      exact blocks_cons_eq_error.mpr (.inr ⟨own, next', first, ih others made'⟩)

/-- Blocks fail as one of them fails. -/
theorem blocks_fails {vs : List Variation}
    (each : ∀ v ∈ vs, ∀ w, (g.block intent v w).1.FailsAs P) (w : Words) :
    (g.blocks intent vs w).1.FailsAs P := by
  intro e failed
  obtain ⟨before, v, after, _, next, rfl, _, stopped⟩ := blocks_eq_error.mp (Prod.ext failed rfl)
  exact each v (List.mem_append_right before List.mem_cons_self) next e (congrArg Prod.fst stopped)

/-- What is asked for is refused when it is not there. -/
theorem selected_fails (undeclared : P (.undeclared .intent intent))
    (unknown : ∀ name, P (.unknownVariation .intent intent name)) (variation : Option String) :
    FailsAs P (g.selected intent variation) := by
  unfold selected Store.get
  cases g.store.find? .intent intent with
  | none => exact failsAs_error.mpr undeclared
  | some d =>
    cases variation with
    | none => exact failsAs_ok
    | some name =>
      simp only [bind, Except.bind]
      split
      · exact failsAs_ok
      · exact failsAs_error.mpr (unknown name)

/-- A request fails as what it asks for is refused, or as a block of it fails. -/
theorem generate_fails {variation : Option String} {w : Words}
    (refused : FailsAs P (g.selected intent variation))
    (each : ∀ vs, g.selected intent variation = .ok vs → ∀ v ∈ vs, ∀ w,
      (g.block intent v w).1.FailsAs P) :
    (g.generate intent variation w).1.FailsAs P := by
  unfold generate
  cases selected : g.selected intent variation with
  | error e => exact Answer.failsAs_error.mpr (refused e selected)
  | ok vs => exact blocks_fails (each vs selected) w

theorem generateCount_fails {variation : Option String} {count : UInt64} {w : Words}
    (zero : P (.invalidCount (.notPositive "0")))
    (unresolved : FailsAs P (g.store.resolve ⟨.intent, intent, variation⟩))
    (each : ∀ d rules, g.store.resolve ⟨.intent, intent, variation⟩ = .ok (d, rules) →
      (g.sample intent (some ⟨.intent, intent, variation⟩) rules count w).1.FailsAs P) :
    (g.generateCount intent variation count w).1.FailsAs P := by
  unfold generateCount
  by_cases none : count = 0
  · simpa [none] using zero
  · rw [if_neg none]
    dsimp only
    cases resolves : g.store.resolve ⟨.intent, intent, variation⟩ with
    | error e => exact Answer.failsAs_error.mpr (unresolved e resolves)
    | ok found => exact each found.1 found.2 resolves

theorem generateRule_fails {r : Rule} {count : UInt64} {w : Words}
    (zero : P (.invalidCount (.notPositive "0")))
    (sampling : (g.sample "" none [r] count w).1.FailsAs P) :
    (g.generateRule r count w).1.FailsAs P := by
  unfold generateRule
  by_cases none : count = 0
  · simpa [none] using zero
  · rwa [if_neg none]

theorem selected_named {d : Definition} {v : Variation} {name : String}
    (there : g.store.find? .intent intent = some d) (known : d.variation? (some name) = some v) :
    g.selected intent (some name) = .ok [v] := by
  simp only [selected, Store.get, there, bind, Except.bind, known]
  rfl

/-- The variations that a request means are of the intent that it names. -/
theorem mem_variations_of_selected {variation : Option String} {vs : List Variation}
    (selected : g.selected intent variation = .ok vs) :
    ∃ d, g.store.find? .intent intent = some d ∧ ∀ v ∈ vs, v ∈ d.variations := by
  cases found : g.store.find? .intent intent with
  | none => simp [Generator.selected, Store.get, found, bind, Except.bind] at selected
  | some d =>
    refine ⟨d, rfl, fun v hv => ?_⟩
    simp only [Generator.selected, Store.get, found, bind, Except.bind] at selected
    cases variation with
    | none =>
      cases selected
      exact hv
    | some name =>
      dsimp only at selected
      cases there : d.variation? (some name) with
      | none => simp [there] at selected
      | some chosen =>
        simp only [there, pure, Except.pure, Except.ok.injEq] at selected
        subst selected
        cases List.mem_singleton.mp hv
        exact List.mem_of_find?_eq_some there

end

end Generator
end Phrasebook
