import Phrasebook.Proofs.Apart
import Phrasebook.Store.Change

/-!
# What a declaration changes

A declaration that is made in place either fails and leaves the store as it was, or adds its
variation to one definition, in the end.

* `declareIn_eq`: it does what a declaration does that makes a new store: a definition that was put
  there in vain is gone without a trace;
* `declareIn_error`, `find?_declareIn`: its error, and every look-up in the store after it, from
  nothing but the definition that it is for;
* `Reachable.keyed`: changes keep every definition under its own kind and name;
* `Store.Refuses`: why a declaration is refused, the first reason before the others;
* `declareIn_exact`: all of this for every store that changes lead to, and that declarations for
  different definitions do not notice each other.
-/

namespace Phrasebook

/-- The variation has a name that authors cannot use. -/
def Declaration.Reserved (decl : Declaration) : Prop :=
  ∃ name, decl.variation.name = some name ∧ name ∈ reservedVariations

/-- A count is asked of something that is not generated. -/
def Declaration.Miscounted (decl : Declaration) : Prop :=
  ∃ count, decl.variation.count = some count ∧ decl.kind ≠ .intent

/-- The declarations are for different definitions. -/
def Declaration.Apart (first second : Declaration) : Prop :=
  ¬ (first.kind = second.kind ∧ first.name = second.name)

theorem Declaration.Apart.symm {first second : Declaration} (h : first.Apart second) :
    second.Apart first :=
  fun same => h ⟨same.1.symm, same.2.symm⟩

namespace Store

variable {s : Store} {decl : Declaration} {e : Error}

theorem find?_remove (s : Store) (kind other : Kind) (name name' : String) :
    (s.remove kind name).find? other name' =
      if other = kind ∧ name' = name then none else s.find? other name' := by
  simp only [find?, table_remove]
  by_cases here : other = kind
  · simp [here, Table.find?_erase]
  · simp [here]

/-- What was put where nothing was is taken out again without a trace. -/
theorem remove_put {kind : Kind} {name : String} (absent : s.find? kind name = none)
    (d : Definition) : (s.put kind name d).remove kind name = s := by
  apply ext_find?
  intro other name'
  rw [find?_remove, find?_put]
  by_cases here : other = kind ∧ name' = name
  · obtain ⟨rfl, rfl⟩ := here
    simp [absent]
  · simp [here]

theorem casing_of_add {d grown : Definition} {v : Variation} (added : d.add v = .ok grown) :
    grown.casing = d.casing := by
  unfold Definition.add at added
  split at added
  · cases added
  · cases added
    rfl

/-- Changing a store in place comes to the same as making a new one. -/
theorem declareIn_eq (s : Store) (decl : Declaration) :
    s.declareIn decl = match s.declare decl with
      | .ok grown => (grown, none)
      | .error e => (s, some e) := by
  have cased {d grown : Definition} (added : d.add decl.variation = .ok grown) :
      (if decl.casing then { grown with casing := true } else grown) =
        { grown with casing := d.casing || decl.casing } := by
    cases decl.casing <;> simp [← casing_of_add added]
  unfold declareIn declare
  cases there : s.find? decl.kind decl.name with
  | some d =>
    cases added : d.add decl.variation with
    | error e => simp [there, added, bind, Except.bind]
    | ok grown => simp [there, added, cased added, bind, Except.bind, pure, Except.pure]
  | none =>
    -- what is put there now is what the other declaration adds to
    let start := Definition.start decl.kind decl.name
    cases added : start.add decl.variation with
    | error e => simp [start, find?_put, added, remove_put there, bind, Except.bind]
    | ok grown =>
      simp [start, find?_put, added, cased added, put_put, bind, Except.bind, pure, Except.pure]

theorem declareIn_error (s : Store) (decl : Declaration) :
    (s.declareIn decl).2 = (s.grows decl).refusal? decl.variation := by
  rw [declareIn_eq]
  cases refused : (s.grows decl).refusal? decl.variation with
  | none => rw [declare_eq_ok.mpr ⟨refused, rfl⟩]
  | some e =>
    have failed : s.declare decl = .error e := by
      change (s.grows decl).add decl.variation >>= _ = _
      rw [Definition.add, refused]
      rfl
    rw [failed]

theorem declareIn_of_refused (refused : (s.declareIn decl).2 = some e) :
    (s.declareIn decl).1 = s := by
  rw [declareIn_eq] at refused ⊢
  cases outcome : s.declare decl with
  | ok grown => simp [outcome] at refused
  | error e => rfl

/-- What a declaration makes of the definition that it is for. -/
def grown (s : Store) (decl : Declaration) : Definition :=
  { s.grows decl with
    casing := (s.grows decl).casing || decl.casing
    variations := (s.grows decl).variations ++ [decl.variation] }

theorem declareIn_of_accepted (accepted : (s.declareIn decl).2 = none) :
    (s.declareIn decl).1 = s.put decl.kind decl.name (s.grown decl) := by
  rw [declareIn_error] at accepted
  rw [declareIn_eq, declare_eq_ok.mpr ⟨accepted, rfl⟩]
  rfl

theorem find?_declareIn (s : Store) (decl : Declaration) (kind : Kind) (name : String) :
    (s.declareIn decl).1.find? kind name =
      if (kind = decl.kind ∧ name = decl.name) ∧ (s.declareIn decl).2 = none
      then some (s.grown decl) else s.find? kind name := by
  cases error : (s.declareIn decl).2 with
  | some e => simp [declareIn_of_refused error]
  | none => simp [declareIn_of_accepted error, find?_put]

/-! ## Every definition in its place -/

theorem keyed_put (h : s.Keyed) (d : Definition) : (s.put d.kind d.name d).Keyed := by
  intro kind name other found
  rw [find?_put] at found
  split at found
  · next here =>
    cases found
    exact ⟨here.1.symm, here.2.symm⟩
  · exact h kind name other found

theorem keyed_insertAll (h : s.Keyed) (ds : List Definition) : (s.insertAll ds).1.Keyed := by
  induction ds generalizing s with
  | nil => exact h
  | cons d rest ih =>
    unfold insertAll insert
    by_cases there : (s.find? d.kind d.name).isSome = true
    · simpa [there] using h
    · simpa [there] using ih (keyed_put h d)

/-- The definition that a declaration adds to has the kind and the name that are declared. -/
theorem Keyed.grows (h : s.Keyed) (decl : Declaration) :
    (s.grows decl).kind = decl.kind ∧ (s.grows decl).name = decl.name := by
  unfold Store.grows
  cases there : s.find? decl.kind decl.name with
  | none => exact ⟨rfl, rfl⟩
  | some d => exact h _ _ d there

theorem keyed_declareIn (h : s.Keyed) (decl : Declaration) : (s.declareIn decl).1.Keyed := by
  cases error : (s.declareIn decl).2 with
  | some e =>
    rw [declareIn_of_refused error]
    exact h
  | none =>
    rw [declareIn_of_accepted error]
    obtain ⟨kind, name⟩ := h.grows decl
    have own := keyed_put h (s.grown decl)
    simpa [grown, kind, name] using own

theorem Reachable.keyed (h : s.Reachable) : s.Keyed := by
  induction h with
  | empty =>
    intro kind name d found
    simp [find?_empty] at found
  | declare _ decl ih => exact keyed_declareIn ih decl
  | insert _ d ih => exact keyed_insertAll ih [d]
  | merge _ other ih => exact keyed_insertAll ih other.all

/-! ## Refusals -/

/-- The definition has a variation of this name already; to have none counts as a name. -/
def Taken (s : Store) (decl : Declaration) : Prop :=
  ∃ d, s.find? decl.kind decl.name = some d ∧ ∃ v ∈ d.variations, v.name = decl.variation.name

/-- Why a declaration is refused. Each reason counts where none of those before it does. -/
inductive Refuses (s : Store) (decl : Declaration) : Error → Prop
  | reserved {name} (named : decl.variation.name = some name) (taken : name ∈ reservedVariations) :
      Refuses s decl (.reservedVariation name)
  | miscounted {count} (free : ¬ decl.Reserved) (asked : decl.variation.count = some count)
      (other : decl.kind ≠ .intent) : Refuses s decl (.invalidCount (.notAnIntent count))
  | ruleless (free : ¬ decl.Reserved) (counted : ¬ decl.Miscounted)
      (bare : decl.variation.rules = []) : Refuses s decl (.withoutRules decl.kind decl.name)
  | again (free : ¬ decl.Reserved) (counted : ¬ decl.Miscounted)
      (ruled : decl.variation.rules ≠ []) (taken : s.Taken decl) :
      Refuses s decl (.duplicate decl.kind decl.name (.variation decl.variation.name))

theorem taken_iff : s.Taken decl ↔ ((s.grows decl).variation? decl.variation.name).isSome := by
  unfold Taken grows Definition.variation?
  cases s.find? decl.kind decl.name with
  | none => simp [Definition.start]
  | some d => simp [List.find?_isSome]

theorem not_reserved_iff : ¬ decl.Reserved ↔
    decl.variation.name.filter reservedVariations.contains = none := by
  simp [Declaration.Reserved, Option.filter_eq_none_iff]

theorem not_miscounted_iff : ¬ decl.Miscounted ↔
    decl.variation.count.filter (fun _ => decl.kind ≠ .intent) = none := by
  simp [Declaration.Miscounted, Option.filter_eq_none_iff]

theorem refusal_of_refuses (keyed : s.Keyed) (h : s.Refuses decl e) :
    (s.grows decl).refusal? decl.variation = some e := by
  obtain ⟨kind, name⟩ := keyed.grows decl
  unfold Definition.refusal?
  rw [kind, name]
  cases h with
  | reserved named taken => simp [named, taken, Option.filter]
  | miscounted free asked other =>
    rw [not_reserved_iff.mp free]
    simp [asked, other, Option.filter]
  | ruleless free counted bare =>
    rw [not_reserved_iff.mp free, not_miscounted_iff.mp counted]
    simp [bare]
  | again free counted ruled taken =>
    rw [not_reserved_iff.mp free, not_miscounted_iff.mp counted]
    simp [ruled, taken_iff.mp taken]

/-- There is a reason to refuse a declaration unless it can be made. -/
theorem exists_refuses_iff : (∃ e, s.Refuses decl e) ↔
    decl.Reserved ∨ decl.Miscounted ∨ decl.variation.rules = [] ∨ s.Taken decl := by
  constructor
  · rintro ⟨e, h⟩
    cases h with
    | reserved named taken => exact .inl ⟨_, named, taken⟩
    | miscounted _ asked other => exact .inr (.inl ⟨_, asked, other⟩)
    | ruleless _ _ bare => exact .inr (.inr (.inl bare))
    | again _ _ _ taken => exact .inr (.inr (.inr taken))
  · intro reasons
    by_cases free : decl.Reserved
    · obtain ⟨name, named, taken⟩ := free
      exact ⟨_, .reserved named taken⟩
    by_cases counted : decl.Miscounted
    · obtain ⟨count, asked, other⟩ := counted
      exact ⟨_, .miscounted free asked other⟩
    by_cases bare : decl.variation.rules = []
    · exact ⟨_, .ruleless free counted bare⟩
    · have taken : s.Taken decl := by simpa [free, counted, bare] using reasons
      exact ⟨_, .again free counted bare taken⟩

theorem refusal?_eq_some_iff (keyed : s.Keyed) :
    (s.grows decl).refusal? decl.variation = some e ↔ s.Refuses decl e := by
  constructor
  · intro refused
    have reasons : ∃ e, s.Refuses decl e := by
      by_contra accepted
      obtain ⟨free, counted, ruled, new⟩ : ¬ decl.Reserved ∧ ¬ decl.Miscounted ∧
        decl.variation.rules ≠ [] ∧ ¬ s.Taken decl := by simpa [exists_refuses_iff] using accepted
      have none : (s.grows decl).refusal? decl.variation = none := by
        apply Definition.refusal?_eq_none.mpr
        refine ⟨?_, ?_, ruled, ?_⟩
        · intro name named reserved
          exact free ⟨name, named, reserved⟩
        · intro count asked
          by_contra other
          exact counted ⟨count, asked, (keyed.grows decl).1 ▸ other⟩
        · simpa [taken_iff] using new
      rw [none] at refused
      cases refused
    obtain ⟨e', h⟩ := reasons
    have same := refusal_of_refuses keyed h
    rw [refused] at same
    cases same
    exact h
  · exact refusal_of_refuses keyed

theorem declareIn_refuses (h : s.Reachable) (decl : Declaration) (e : Error) :
    (s.declareIn decl).2 = some e ↔ s.Refuses decl e := by
  rw [declareIn_error, refusal?_eq_some_iff h.keyed]

/-! ## What is added -/

/-- The store has got the variation of the declaration, behind those that the definition had, and is
the same elsewhere. -/
structure Adds (s : Store) (decl : Declaration) (after : Store) : Prop where
  known : ∀ d, s.find? decl.kind decl.name = some d →
    after.find? decl.kind decl.name = some { d with
      casing := d.casing || decl.casing
      variations := d.variations ++ [decl.variation] }
  new : s.find? decl.kind decl.name = none →
    after.find? decl.kind decl.name =
      some ⟨decl.name, decl.kind, decl.casing, [decl.variation]⟩
  others : ∀ kind name, ¬ (kind = decl.kind ∧ name = decl.name) →
    after.find? kind name = s.find? kind name

theorem adds_of_accepted (accepted : (s.declareIn decl).2 = none) :
    s.Adds decl (s.declareIn decl).1 where
  known d there := by simp [find?_declareIn, accepted, grown, grows, there]
  new absent := by simp [find?_declareIn, accepted, grown, grows, absent, Definition.start]
  others kind name elsewhere := by simp [find?_declareIn, elsewhere]

/-! ## Two declarations -/

theorem grown_declareIn {other : Declaration} (apart : decl.Apart other) :
    (s.declareIn other).1.grown decl = s.grown decl := by
  unfold grown grows
  rw [find?_declareIn, if_neg fun here => apart here.1]

theorem error_declareIn {other : Declaration} (apart : decl.Apart other) :
    ((s.declareIn other).1.declareIn decl).2 = (s.declareIn decl).2 := by
  have same : (s.declareIn other).1.grows decl = s.grows decl := by
    unfold grows
    rw [find?_declareIn, if_neg fun here => apart here.1]
  rw [declareIn_error, declareIn_error, same]

theorem declareIn_comm {first second : Declaration} (apart : first.Apart second) :
    ((s.declareIn first).1.declareIn second).1 = ((s.declareIn second).1.declareIn first).1 := by
  apply ext_find?
  intro kind name
  simp only [find?_declareIn, error_declareIn apart, error_declareIn apart.symm,
    grown_declareIn apart, grown_declareIn apart.symm]
  by_cases here : kind = first.kind ∧ name = first.name
  · obtain ⟨rfl, rfl⟩ := here
    have elsewhere : ¬ (first.kind = second.kind ∧ first.name = second.name) := apart
    simp [elsewhere]
  · simp [here]

/-- **A declaration is atomic.** In every store that changes lead to, a declaration is refused just
for one of four reasons, of which the first one gives the error, and then the store is as it was.
Otherwise the variation is added behind those of its definition, which is new if there was none, and
nothing else is changed. Declarations for different definitions have the same results, and lead to
the same store, in either order. -/
theorem declareIn_exact {s : Store} (h : s.Reachable) (decl : Declaration) :
    (∀ e, (s.declareIn decl).2 = some e ↔ s.Refuses decl e) ∧
      ((∃ e, s.Refuses decl e) ↔
        decl.Reserved ∨ decl.Miscounted ∨ decl.variation.rules = [] ∨ s.Taken decl) ∧
      ((s.declareIn decl).2 ≠ none → (s.declareIn decl).1 = s) ∧
      ((s.declareIn decl).2 = none → s.Adds decl (s.declareIn decl).1) ∧
      (∀ other, decl.Apart other →
        ((s.declareIn decl).1.declareIn other).2 = (s.declareIn other).2 ∧
          ((s.declareIn other).1.declareIn decl).2 = (s.declareIn decl).2 ∧
          ((s.declareIn decl).1.declareIn other).1 = ((s.declareIn other).1.declareIn decl).1) ∧
      s.declareIn decl = match s.declare decl with
        | .ok grown => (grown, none)
        | .error e => (s, some e) := by
  refine ⟨declareIn_refuses h decl, exists_refuses_iff, ?failed, adds_of_accepted, ?both,
    declareIn_eq s decl⟩
  case failed =>
    intro failed
    obtain ⟨e, refused⟩ := Option.ne_none_iff_exists'.mp failed
    exact declareIn_of_refused refused
  case both =>
    intro other apart
    exact ⟨error_declareIn apart.symm, error_declareIn apart, declareIn_comm apart⟩

/-- An unnamed variation that is declared again is refused, and an alias beside it is not. -/
theorem declareIn_exact_greeting : ∃ (s : Store) (again who : Declaration),
    s.Reachable ∧ again.Apart who ∧
      s.Refuses again (.duplicate .intent "hi" (.variation none)) ∧
      (s.declareIn again).1 = s ∧ s.Adds who (s.declareIn who).1 ∧
      ((s.declareIn again).1.declareIn who).1 = ((s.declareIn who).1.declareIn again).1 := by
  let hi : Declaration := ⟨.intent, "hi", false, ⟨none, some 2, [⟨[.word "hello"], none⟩]⟩⟩
  let again : Declaration := ⟨.intent, "hi", true, ⟨none, none, [⟨[.word "hey"], none⟩]⟩⟩
  let who : Declaration := ⟨.alias, "who", true, ⟨some "all", none, [⟨[.word "you"], none⟩]⟩⟩
  let s : Store := ((∅ : Store).declareIn hi).1
  have reachable : s.Reachable := .declare .empty hi
  have apart : again.Apart who := by
    rintro ⟨kinds, -⟩
    cases kinds
  have failed : (s.declareIn again).2 = some (.duplicate .intent "hi" (.variation none)) := by
    decide
  have done : (s.declareIn who).2 = none := by decide
  obtain ⟨refuses, -, kept, -, both, -⟩ := declareIn_exact reachable again
  obtain ⟨-, -, -, adds, -, -⟩ := declareIn_exact reachable who
  exact ⟨s, again, who, reachable, apart, (refuses _).mp failed, kept (by simp [failed]), adds done,
    (both who apart).2.2⟩

end Store
end Phrasebook
