import Phrasebook.Context

/-!
# What a context keeps

* `Steps.on_bind_ok`, `Steps.on_bind_error`: steps go on where they succeed, and end where they fail
  with the state of that moment;
* `Context.Keeps`: from one moment to a later one a context has the same trail, and no decision
  about a named group is changed or taken twice. It holds of a single decision
  (`keeps_decide`) and from step to step (`Keeps.trans`);
* `Context.Returns`: a call answers as one with a pass and a trail of its own, and keeps the
  context. There is a rule for each thing that a call does to a context.
-/
namespace Phrasebook

namespace Steps

variable {σ α β : Type} {x : Steps σ α} {f : α → Steps σ β} {state next : σ}

theorem on_of (outcome : Outcome α) : (of outcome).on state = some (outcome, state) := rfl

theorem on_modifyGet (g : σ → α × σ) :
    (modifyGet g : Steps σ α).on state = some (.ok (g state).1, (g state).2) := rfl

theorem on_get : (MonadState.get : Steps σ σ).on state = some (.ok state, state) := rfl

theorem on_set : (set next : Steps σ PUnit).on state = some (.ok ⟨⟩, next) := rfl

theorem on_bind : (x >>= f).on state =
    (x.on state).bind fun outcome => (ExceptT.bindCont f outcome.1).run outcome.2 := rfl

theorem on_bind_ok {a : α} (first : x.on state = some (.ok a, next)) :
    (x >>= f).on state = (f a).on next := by
  rw [on_bind, first]
  rfl

theorem on_bind_error {e : Error} (first : x.on state = some (.error e, next)) :
    (x >>= f).on state = some (.error e, next) := by
  rw [on_bind, first]
  rfl

/-- Steps that go alike, and on alike wherever they succeed, go alike as a whole. -/
theorem on_bind_alike {y : Steps σ α} {h : α → Steps σ β}
    (first : x.on state = y.on state)
    (others : ∀ a next, y.on state = some (.ok a, next) → (f a).on next = (h a).on next) :
    (x >>= f).on state = (y >>= h).on state := by
  cases ran : y.on state with
  | none => rw [on_bind, on_bind, first, ran]; rfl
  | some outcome =>
    obtain ⟨e | a, next⟩ := outcome
    · rw [on_bind_error (first.trans ran), on_bind_error ran]
    · rw [on_bind_ok (first.trans ran), on_bind_ok ran]
      exact others a next ran

theorem on_choice {g : σ → α × σ} {a : α} (chosen : g state = (a, next)) :
    (modifyGet g >>= f).on state = (f a).on next := by
  rw [on_bind_ok (on_modifyGet g), chosen]

/-- Steps that leave the state alone go on like steps without a state. -/
theorem on_bind_still {outcome : Outcome α} {g : α → Outcome β}
    (first : x.on state = some (outcome, state))
    (others : ∀ a, (f a).on state = some (g a, state)) :
    (x >>= f).on state = some (outcome >>= g, state) := by
  cases outcome with
  | error e => exact on_bind_error first
  | ok a => exact (on_bind_ok first).trans (others a)

theorem on_andThen {outcome : Outcome α} (change : σ → σ)
    (first : x.on state = some (outcome, next)) :
    (x.andThen change).on state = some (outcome, change next) := by
  have split : (x.andThen change).on state =
      (x.on state).bind fun outcome => some (outcome.1, change outcome.2) := rfl
  rw [split, first]
  rfl

end Steps

theorem Trail.eq_cons_of_step? {trail longer : Trail} {t : Target}
    (steps : trail.step? t = some longer) : longer = t :: trail := by
  unfold step? at steps
  split at steps
  · cases steps
  · exact (Option.some.inj steps).symm

/-- Stepping off restores the trail that was stepped along. -/
theorem Steps.on_there_and_back {α : Type} {x : Steps Trail α} {trail longer : Trail} {t : Target}
    {outcome : Outcome α} (steps : trail.step? t = some longer)
    (body : x.on longer = some (outcome, longer)) :
    (do set longer; x.andThen List.tail : Steps Trail α).on trail = some (outcome, trail) := by
  refine (on_bind_ok on_set).trans ((on_andThen List.tail body).trans ?_)
  rw [Trail.eq_cons_of_step? steps, List.tail_cons]

namespace Pass

theorem decide_known {group : String} {b : Bool} {pass : Pass} (named : group ≠ "")
    (known : pass.decisions.lookup group = some b) (percent : UInt8) :
    pass.decide group percent = (b, pass) := by
  simp [decide, named, known]

/-- What is decided about a named group is what is known of it from then on. -/
theorem lookup_decide (group : String) (percent : UInt8) (pass : Pass) (other : String) :
    (pass.decide group percent).2.decisions.lookup other =
      if group ≠ "" ∧ other = group then some (pass.decide group percent).1
      else pass.decisions.lookup other := by
  by_cases named : group = ""
  · rw [if_neg (fun h => h.1 named)]
    simp [decide, named, draw]
  · cases known : pass.decisions.lookup group with
    | some b =>
      rw [decide_known named known]
      split
      · next same => rw [same.2, known]
      · rfl
    | none =>
      simp only [decide, String.isEmpty_iff, named, known, if_false, List.lookup_cons]
      by_cases same : other = group
      · simp [same, named]
      · have apart : (other == group) = false := by simpa using same
        simp [same, apart, draw]

end Pass

namespace Context

/-- What becomes of a context, with the decisions taken in between. -/
structure Keeps (c : Context) (added : List Decision) (later : Context) : Prop where
  trail : later.trail = c.trail
  record : later.record = c.record ++ added
  kept : ∀ group b, c.pass.decisions.lookup group = some b →
    later.pass.decisions.lookup group = some b
  named : ∀ group b, later.pass.decisions.lookup group = some b →
    c.pass.decisions.lookup group = some b ∨ group ≠ ""
  decided : ∀ d ∈ added, d.group ≠ "" → later.pass.decisions.lookup d.group = some d.included
  /-- What was known before is decided in the same way, and without words. -/
  known : ∀ d ∈ added, d.group ≠ "" → ∀ b, c.pass.decisions.lookup d.group = some b →
    d.included = b ∧ d.after = d.before
  /-- So is what was decided in between. -/
  once : added.Pairwise fun first other => first.group ≠ "" → other.group = first.group →
    other.included = first.included ∧ other.after = other.before

variable {c mid later : Context} {added more : List Decision}

/-- Words were taken, but not for a decision. -/
theorem Keeps.of_pass {pass : Pass} (same : pass.decisions = c.pass.decisions) :
    c.Keeps [] { c with pass } where
  trail := rfl
  record := (List.append_nil _).symm
  kept := fun _ _ known => same ▸ known
  named := fun _ _ known => .inl (same ▸ known)
  decided := nofun
  known := nofun
  once := .nil

theorem Keeps.refl (c : Context) : c.Keeps [] c := .of_pass rfl

theorem Keeps.trans (first : c.Keeps added mid) (second : mid.Keeps more later) :
    c.Keeps (added ++ more) later where
  trail := second.trail.trans first.trail
  record := by rw [second.record, first.record, List.append_assoc]
  kept := fun group b known => second.kept group b (first.kept group b known)
  named := by
    intro group b known
    rcases second.named group b known with before | named
    · exact first.named group b before
    · exact .inr named
  decided := by
    intro d hd named
    rcases List.mem_append.mp hd with hd | hd
    · exact second.kept _ _ (first.decided d hd named)
    · exact second.decided d hd named
  known := by
    intro d hd named b known
    rcases List.mem_append.mp hd with hd | hd
    · exact first.known d hd named b known
    · exact second.known d hd named b (first.kept _ _ known)
  once := by
    refine List.pairwise_append.mpr ⟨first.once, second.once, ?_⟩
    -- what the first steps decided is known to those that follow
    intro d hd other member named same
    have known := first.decided d hd named
    exact second.known other member (same ▸ named) d.included (same ▸ known)

/-- Behind the rules of a target the trail is the one before it. -/
theorem Keeps.leave {longer : Trail} {t : Target} (steps : c.trail.step? t = some longer)
    (body : Keeps { c with trail := longer } added later) : c.Keeps added later.leave where
  trail := by
    have onto : later.trail = t :: c.trail := body.trail.trans (Trail.eq_cons_of_step? steps)
    rw [Context.leave, onto, List.tail_cons]
  record := body.record
  kept := body.kept
  named := body.named
  decided := body.decided
  known := body.known
  once := body.once

theorem keeps_decide (group : String) (percent : UInt8) (c : Context) :
    ∃ d, c.Keeps [d] (c.decide group percent).2 := by
  have lookup := c.pass.lookup_decide group percent
  let d : Decision := ⟨group, percent, (c.pass.decide group percent).1, c.pass.words.taken,
    (c.pass.decide group percent).2.words.taken⟩
  refine ⟨d, rfl, rfl, ?kept, ?named, ?decided, ?known, List.pairwise_singleton _ _⟩
  case kept =>
    intro other b known
    refine (lookup other).trans ?_
    split
    · next same =>
      rw [same.2] at known
      rw [Pass.decide_known same.1 known]
    · exact known
  case named =>
    intro other b known
    replace known := (lookup other).symm.trans known
    split at known
    · next same => exact .inr (same.2 ▸ same.1)
    · exact .inl known
  case decided =>
    intro other hd named
    rw [List.mem_singleton.mp hd] at named ⊢
    exact (lookup group).trans (if_pos ⟨named, rfl⟩)
  case known =>
    intro other hd named b known
    rw [List.mem_singleton.mp hd] at named known ⊢
    have same : c.pass.decide group percent = (b, c.pass) := Pass.decide_known named known percent
    exact ⟨congrArg (·.1) same, congrArg (·.2.words.taken) same⟩

theorem includes_eq {m : Modifiers} {b : Bool} {next : Pass} (h : c.pass.includes m = (b, next)) :
    ∃ there added, c.includes m = (b, there) ∧ there.pass = next ∧ c.Keeps added there := by
  unfold Pass.includes at h
  unfold includes
  cases named : m.group with
  | none =>
    rw [named] at h
    obtain ⟨rfl, rfl⟩ := Prod.mk.inj h
    exact ⟨c, [], rfl, rfl, .refl c⟩
  | some group =>
    simp only [named] at h
    obtain ⟨d, keeps⟩ := c.keeps_decide group (m.percent.getD Modifiers.defaultPercent)
    refine ⟨_, [d], Prod.ext (congrArg (·.1) h) rfl, congrArg (·.2) h, keeps⟩

/-- A call answers as expected, and keeps the context. -/
def Returns (c : Context) (expected : Outcome Fragment × Pass)
    (actual : Option (Outcome Fragment × Context)) : Prop :=
  ∃ later added, actual = some (expected.1, later) ∧ later.pass = expected.2 ∧ c.Keeps added later

theorem returns_here {outcome : Outcome Fragment} {pass : Pass} (same : c.pass = pass) :
    c.Returns (outcome, pass) (some (outcome, c)) :=
  ⟨c, [], rfl, same, .refl c⟩

/-- What was done before a call, and kept the context, counts to the call. -/
theorem Keeps.returns {there : Context} {expected : Outcome Fragment × Pass}
    {actual : Option (Outcome Fragment × Context)} (before : c.Keeps added there)
    (h : there.Returns expected actual) : c.Returns expected actual := by
  obtain ⟨later, more, ran, pass, keeps⟩ := h
  exact ⟨later, added ++ more, ran, pass, before.trans keeps⟩

section
variable {α : Type} {x : Steps Context Fragment} {f : Fragment → Steps Context Fragment}
  {expected : Outcome Fragment × Pass} {next : Pass} {m : Modifiers} {b : Bool}

theorem Returns.bind_error {e : Error} (h : c.Returns (.error e, next) (x.on c)) :
    c.Returns (.error e, next) ((x >>= f).on c) := by
  obtain ⟨later, added, ran, pass, keeps⟩ := h
  exact ⟨later, added, Steps.on_bind_error ran, pass, keeps⟩

theorem Returns.bind_ok {first : Fragment} (h : c.Returns (.ok first, next) (x.on c))
    (others : ∀ there : Context, there.pass = next → there.trail = c.trail →
      there.Returns expected ((f first).on there)) :
    c.Returns expected ((x >>= f).on c) := by
  obtain ⟨there, added, ran, pass, keeps⟩ := h
  rw [Steps.on_bind_ok ran]
  exact keeps.returns (others there pass keeps.trail)

theorem returns_of {outcome : Outcome α} {a : α} {f : α → Steps Context Fragment}
    (ok : outcome = .ok a) (others : c.Returns expected ((f a).on c)) :
    c.Returns expected ((Steps.of outcome >>= f).on c) := by
  rw [ok, Steps.on_bind_ok (Steps.on_of _)]
  exact others

theorem returns_includes {f : Bool → Steps Context Fragment}
    (decision : c.pass.includes m = (b, next))
    (others : ∀ there : Context, there.pass = next → there.trail = c.trail →
      there.Returns expected ((f b).on there)) :
    c.Returns expected ((modifyGet (includes m) >>= f).on c) := by
  obtain ⟨there, added, chosen, pass, keeps⟩ := includes_eq decision
  rw [Steps.on_choice chosen]
  exact keeps.returns (others there pass keeps.trail)

theorem returns_choose {values : List α} {value : Option α}
    {f : Option α → Steps Context Fragment} (draws : c.pass.choose values = (value, next))
    (others : ∀ there : Context, there.pass = next → there.trail = c.trail →
      there.Returns expected ((f value).on there)) :
    c.Returns expected ((modifyGet (choose values) >>= f).on c) := by
  have chosen : c.choose values = (value, { c with pass := next }) := by rw [choose, draws]
  have same : next.decisions = c.pass.decisions := congrArg (·.2.decisions) draws.symm
  rw [Steps.on_choice chosen]
  exact (Keeps.of_pass same).returns (others _ rfl rfl)

theorem returns_casing {f : Casing → Steps Context Fragment}
    (others : ∀ there : Context, there.pass = (c.pass.casing b).2 → there.trail = c.trail →
      there.Returns expected ((f (c.pass.casing b).1).on there)) :
    c.Returns expected ((modifyGet (casing b) >>= f).on c) := by
  have same : (c.pass.casing b).2.decisions = c.pass.decisions := by
    unfold Pass.casing
    split <;> rfl
  have chosen : c.casing b = ((c.pass.casing b).1, { c with pass := (c.pass.casing b).2 }) := rfl
  rw [Steps.on_choice chosen]
  exact (Keeps.of_pass same).returns (others _ rfl rfl)

end
end Context

end Phrasebook
