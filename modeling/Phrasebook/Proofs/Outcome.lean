import Phrasebook.Answer

/-!
# Outcomes of several steps

A step that goes on after another succeeds when both do, and so do answers that are put together.
-/

namespace Phrasebook

section
variable {ε ε' α β : Type}

theorem bind_eq_ok {x : Except ε α} {f : α → Except ε β} {b : β} :
    x >>= f = .ok b ↔ ∃ a, x = .ok a ∧ f a = .ok b := by
  cases x <;> simp [bind, Except.bind]

theorem map_eq_ok {x : Except ε α} {f : α → β} {b : β} :
    x.map f = .ok b ↔ ∃ a, x = .ok a ∧ f a = b := by
  cases x <;> simp [Except.map]

theorem mapError_eq_ok {x : Except ε α} {f : ε → ε'} {a : α} :
    x.mapError f = .ok a ↔ x = .ok a := by
  cases x with
  | error e =>
    have failed : (Except.error e : Except ε α).mapError f = .error (f e) := rfl
    simp [failed]
  | ok b =>
    have kept : (Except.ok b : Except ε α).mapError f = .ok b := rfl
    simp [kept]

/-- Errors that do not differ after a step do not differ after the next one. -/
theorem mapError_bind_congr {x y : Except ε α} {f : ε → ε'}
    (same : x.mapError f = y.mapError f) (g : α → Except ε β) :
    (x >>= g).mapError f = (y >>= g).mapError f := by
  have apart (z : Except ε α) :
      (z >>= g).mapError f = z.mapError f >>= fun a => (g a).mapError f := by
    cases z <;> rfl
  rw [apart, apart, same]

/-- What holds of every error that there can be. -/
def FailsAs (P : ε → Prop) (x : Except ε α) : Prop := ∀ e, x = .error e → P e

variable {P : ε → Prop}

@[simp] theorem failsAs_ok {a : α} : FailsAs P (.ok a : Except ε α) := nofun

@[simp] theorem failsAs_error {e : ε} : FailsAs P (.error e : Except ε α) ↔ P e := by
  simp [FailsAs]

theorem FailsAs.bind_ok {x : Except ε α} {f : α → Except ε β} (first : FailsAs P x)
    (later : ∀ a, x = .ok a → FailsAs P (f a)) : FailsAs P (x >>= f) := by
  cases x with
  | error e => exact failsAs_error.mpr (failsAs_error.mp first)
  | ok a => exact later a rfl

theorem FailsAs.bind {x : Except ε α} {f : α → Except ε β} (first : FailsAs P x)
    (later : ∀ a, FailsAs P (f a)) : FailsAs P (x >>= f) :=
  first.bind_ok fun a _ => later a

theorem FailsAs.both {γ : Type} {x : Except ε α} {y : Except ε β} (first : FailsAs P x)
    (others : FailsAs P y) (join : α → β → γ) :
    FailsAs P (do return join (← x) (← y)) :=
  first.bind fun _ => others.bind fun _ => failsAs_ok

theorem FailsAs.mono {Q : ε → Prop} {x : Except ε α} (h : FailsAs P x) (all : ∀ e, P e → Q e) :
    FailsAs Q x :=
  fun e failed => all e (h e failed)

theorem FailsAs.map {x : Except ε α} (first : FailsAs P x) (f : α → β) : FailsAs P (x.map f) := by
  cases x with
  | error e => exact failsAs_error.mpr (failsAs_error.mp first)
  | ok a => exact failsAs_ok

end

namespace Answer

variable {α β : Type} {x : Answer α} {f : α → β} {o : Outcome α} {answers : List (Answer α)}

@[simp] theorem map_ok (f : α → β) (a : α) : (ok a).map f = ok (f a) := rfl

@[simp] theorem map_error (f : α → β) (e : Error) : (error e).map f = error e := rfl

@[simp] theorem map_overflow (f : α → β) : overflow.map f = overflow := rfl

theorem map_eq_ok {b : β} : x.map f = ok b ↔ ∃ a, x = ok a ∧ f a = b := by
  cases x <;> simp

theorem map_eq_error {e : Error} : x.map f = error e ↔ x = error e := by
  cases x <;> simp

theorem map_eq_overflow : x.map f = overflow ↔ x = overflow := by
  cases x <;> simp

@[simp] theorem of_ok (a : α) : of (.ok a) = ok a := rfl

@[simp] theorem of_error (e : Error) : (of (.error e) : Answer α) = error e := rfl

@[simp] theorem of_eq_ok {a : α} : of o = ok a ↔ o = .ok a := by
  cases o <;> simp

@[simp] theorem of_eq_error {e : Error} : of o = error e ↔ o = .error e := by
  cases o <;> simp

theorem map_of (f : α → β) (o : Outcome α) : (of o).map f = of (o.map f) := by
  cases o <;> rfl

theorem exists_of (answered : x ≠ overflow) : ∃ o, x = of o := by
  cases x with
  | ok a => exact ⟨.ok a, rfl⟩
  | error e => exact ⟨.error e, rfl⟩
  | overflow => exact absurd rfl answered

/-! ## All of them -/

theorem all_cons (first : Answer α) (rest : List (Answer α)) :
    all (first :: rest) = first.before (all rest) := rfl

theorem all_eq_overflow : all answers = overflow ↔ overflow ∈ answers := by
  induction answers with
  | nil => simp [all]
  | cons first rest ih =>
    rw [all_cons, List.mem_cons, ← ih]
    cases first <;> cases all rest <;> simp [before]

theorem before_eq_ok {others : Answer (List α)} {values : List α} :
    x.before others = ok values ↔ ∃ a rest, x = ok a ∧ others = ok rest ∧ a :: rest = values := by
  cases x <;> cases others <;> simp [before]

/-- There is a value for each, in their order. -/
theorem all_eq_ok {values : List α} : all answers = ok values ↔ answers = values.map ok := by
  induction answers generalizing values with
  | nil => cases values <;> simp [all]
  | cons first rest ih =>
    rw [all_cons, before_eq_ok]
    simp only [ih]
    cases values <;> simp

/-- Without one that overflows, they are put together like outcomes. -/
theorem all_of (outcomes : List (Outcome α)) : all (outcomes.map of) = of (outcomes.mapM id) := by
  induction outcomes with
  | nil => rfl
  | cons o rest ih =>
    rw [List.map_cons, all_cons, ih, List.mapM_cons]
    cases o <;> cases rest.mapM id <;> rfl

/-! ## Errors -/

/-- What holds of every error that there can be. -/
def FailsAs (P : Error → Prop) (x : Answer α) : Prop := ∀ e, x = error e → P e

variable {P : Error → Prop}

@[simp] theorem failsAs_ok {a : α} : (ok a).FailsAs P := nofun

@[simp] theorem failsAs_error {e : Error} : (error e : Answer α).FailsAs P ↔ P e := by
  simp [FailsAs]

@[simp] theorem failsAs_overflow : (overflow : Answer α).FailsAs P := nofun

@[simp] theorem failsAs_of : (of o).FailsAs P ↔ Phrasebook.FailsAs P o := by
  simp [FailsAs, Phrasebook.FailsAs]

end Answer

end Phrasebook
