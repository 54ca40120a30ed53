import Mathlib.Algebra.BigOperators.Group.List.Basic
import Mathlib.Algebra.GroupWithZero.Nat
import Mathlib.Data.List.Dedup
import Mathlib.Logic.Relation
import Phrasebook.Journal
import Phrasebook.Proofs.Calls
import Phrasebook.Proofs.Reach

/-!
# Walks come to an end

Nothing bounds a walk that is noted in a journal, and still each one ends: it answers as the walk
that is bounded, with a result or with an error.

* `Store.frames`, `mem_frames`, `length_frames`: the targets that resolve, and how many there are;
* `Store.Inside`: the calls that a call can make. `inside_decreases`: each leaves fewer targets to
  step onto, or as many and a smaller task, so that `wellFounded_inside`;
* `trail_of_inside`: what the calls that are made have added to the trail;
* `Journal.Returns`: the steps in a call answer as expected and come back to their trail, and all
  that they note is inside the call. There is a rule for each thing that a walk does to a journal;
* `Agrees`: a walk answers as expected on every journal. `agrees_countPieces`, `agrees_listPieces`
  and `agrees_expandPieces` say so of the three walks;
* `walks_end`: expanding, counting and listing every rule.
-/
namespace Phrasebook

open Relation

namespace Store

variable {s : Store} {trail longer : Trail} {t : Target}

/-! ## The targets that there are -/

/-- The targets of a definition: itself as a whole, and each variation by its name. -/
def framesOf (kind : Kind) (name : String) (d : Definition) : List Target :=
  ⟨kind, name, none⟩ :: (d.variations.filterMap (·.name)).dedup.map fun v => ⟨kind, name, some v⟩

/-- Every target that resolves, once. -/
def frames (s : Store) : List Target :=
  Kind.all.flatMap fun kind => (s.table kind).entries.flatMap fun e => framesOf kind e.1 e.2

theorem mem_framesOf {kind : Kind} {name : String} {d : Definition} :
    t ∈ framesOf kind name d ↔ t.kind = kind ∧ t.name = name ∧
      ∀ v, t.variation = some v → ∃ w ∈ d.variations, w.name = some v := by
  obtain ⟨kind', name', variation⟩ := t
  cases variation <;> simp [framesOf, and_left_comm, and_comm, eq_comm, and_assoc]

theorem mem_frames : t ∈ s.frames ↔ s.Resolves t := by
  simp only [frames, List.mem_flatMap, Prod.exists, Table.mem_entries, mem_framesOf, Resolves]
  constructor
  · rintro ⟨kind, _, name, d, found, rfl, rfl, known⟩
    exact ⟨d, found, known⟩
  · rintro ⟨d, found, known⟩
    exact ⟨t.kind, by cases t.kind <;> simp [Kind.all], t.name, d, found, rfl, rfl, known⟩

/-- One for each definition and one for each of its variations' names. -/
theorem length_frames : s.frames.length =
    (s.all.map fun d => 1 + (d.variations.filterMap (·.name)).dedup.length).sum := by
  simp [frames, framesOf, all, definitions, Table.values, List.length_flatMap, Kind.all,
    Function.comp_def, Nat.add_comm]

theorem nodup_framesOf (kind : Kind) (name : String) (d : Definition) :
    (framesOf kind name d).Nodup := by
  refine List.nodup_cons.mpr ⟨by simp, (List.nodup_dedup _).map ?_⟩
  intro v w same
  simpa using same

theorem nodup_frames : s.frames.Nodup := by
  refine List.nodup_flatMap.mpr ⟨fun kind _ => List.nodup_flatMap.mpr ⟨fun e _ => ?_, ?_⟩, ?_⟩
  · exact nodup_framesOf kind e.1 e.2
  · refine (s.table kind).sorted.imp fun {a b} lt t ha hb => ?_
    have name := (mem_framesOf.mp ha).2.1.symm.trans (mem_framesOf.mp hb).2.1
    exact String.lt_irrefl b.1 (name ▸ lt)
  · have kinds : Kind.all.Pairwise (· ≠ ·) := by decide
    refine kinds.imp fun {a b} apart t ha hb => apart ?_
    obtain ⟨e, _, he⟩ := List.mem_flatMap.mp ha
    obtain ⟨f, _, hf⟩ := List.mem_flatMap.mp hb
    exact (mem_framesOf.mp he).1.symm.trans (mem_framesOf.mp hf).1

/-! ## Calls inside calls -/

/-- The calls that the second one can make itself, whether it expands, counts or lists. -/
inductive Inside (s : Store) : Trail × Task → Trail × Task → Prop
  | group {trail pieces value m rest} :
      Inside s (trail, .pieces pieces) (trail, .pieces (.group pieces value m :: rest))
  | meant {trail kind name m rest d rules longer}
      (resolves : s.resolve ⟨kind, name, m.variation⟩ = .ok (d, rules))
      (steps : trail.step? ⟨kind, name, m.variation⟩ = some longer) :
      Inside s (longer, .rules rules) (trail, .pieces (.reference kind name m :: rest))
  | rule {trail rules r} (hr : r ∈ rules) :
      Inside s (trail, .pieces r.pieces) (trail, .rules rules)
  | rest {trail p rest} : Inside s (trail, .pieces rest) (trail, .pieces (p :: rest))

/-- How many targets a call can still step onto, and how much it has before it. -/
noncomputable def left (s : Store) (call : Trail × Task) : Nat × Nat :=
  (unvisited s.frames call.1, match call.2 with
    | .pieces ps => sizeOf ps
    | .rules rules => sizeOf rules)

theorem sizeOf_pieces_lt {r : Rule} {rules : List Rule} (hr : r ∈ rules) :
    sizeOf r.pieces < sizeOf rules := by
  have whole := List.sizeOf_lt_of_mem hr
  have part : sizeOf r.pieces < sizeOf r := by
    cases r
    simp only [Rule.mk.sizeOf_spec]
    omega
  exact Nat.lt_trans part whole

theorem left_step {d : Definition} {rules : List Rule} (resolves : s.resolve t = .ok (d, rules))
    (steps : trail.step? t = some longer) :
    unvisited s.frames longer < unvisited s.frames trail := by
  have absent : t ∉ trail := fun there => by simp [Trail.step?, there] at steps
  rw [Trail.eq_cons_of_step? steps]
  exact unvisited_cons_lt (mem_frames.mpr (resolves_iff.mpr ⟨d, rules, resolves⟩)) absent

theorem inside_decreases {inner outer : Trail × Task} (h : s.Inside inner outer) :
    Prod.Lex (· < ·) (· < ·) (s.left inner) (s.left outer) := by
  cases h with
  | group =>
    exact .right _ (by simp only [List.cons.sizeOf_spec, Piece.group.sizeOf_spec]; omega)
  | meant resolves steps => exact .left _ _ (left_step resolves steps)
  | rule hr => exact .right _ (sizeOf_pieces_lt hr)
  | rest => exact .right _ (by simp only [List.cons.sizeOf_spec]; omega)

theorem wellFounded_inside (s : Store) : WellFounded s.Inside :=
  Subrelation.wf (fun h => inside_decreases h)
    (InvImage.wf s.left (Prod.lex Nat.lt_wfRel Nat.lt_wfRel).wf)

/-- The longer trail has targets added that are there, each once and none that was on the trail. -/
structure Onward (s : Store) (trail longer : Trail) (added : List Target) : Prop where
  longer : longer = added ++ trail
  nodup : added.Nodup
  absent : ∀ t ∈ added, t ∉ trail
  resolves : ∀ t ∈ added, s.Resolves t

theorem Onward.step {mid : Trail} {added : List Target} (h : s.Onward trail mid added)
    (resolves : s.Resolves t) (steps : mid.step? t = some longer) :
    s.Onward trail longer (t :: added) := by
  have absent : t ∉ added ++ trail := fun there => by simp [Trail.step?, h.longer, there] at steps
  obtain ⟨new, fresh⟩ := not_or.mp (mt List.mem_append.mpr absent)
  refine ⟨?_, List.nodup_cons.mpr ⟨new, h.nodup⟩, ?_, ?_⟩
  · rw [Trail.eq_cons_of_step? steps, h.longer, List.cons_append]
  · exact List.forall_mem_cons.mpr ⟨fresh, h.absent⟩
  · exact List.forall_mem_cons.mpr ⟨resolves, h.resolves⟩

theorem Onward.length_le {added : List Target} (h : s.Onward trail longer added) :
    added.length ≤ s.frames.length :=
  (List.subperm_of_subset h.nodup fun _ ht => mem_frames.mpr (h.resolves _ ht)).length_le

/-- Calls inside a call are made on its trail or further along. -/
theorem trail_of_inside {inner outer : Trail × Task}
    (h : ReflTransGen s.Inside inner outer) : ∃ added, s.Onward outer.1 inner.1 added := by
  induction h using ReflTransGen.head_induction_on with
  | refl => exact ⟨[], rfl, List.nodup_nil, nofun, nofun⟩
  | head first _ ih =>
    obtain ⟨added, onward⟩ := ih
    cases first with
    | group => exact ⟨added, onward⟩
    | meant resolves steps => exact ⟨_, onward.step (resolves_iff.mpr ⟨_, _, resolves⟩) steps⟩
    | rule => exact ⟨added, onward⟩
    | rest => exact ⟨added, onward⟩

end Store

/-! ## What a walk leaves in a journal -/

namespace Journal

open Steps

variable {s : Store} {inner outer : Trail × Task} {j mid later : Journal}

/-- The journal is back on its trail, and the calls that were noted are inside a call. -/
structure Extends (s : Store) (outer : Trail × Task) (j later : Journal) : Prop where
  trail : later.trail = j.trail
  calls : ∃ calls, later.calls = j.calls ++ calls ∧
    ∀ call ∈ calls, ReflTransGen s.Inside call outer

/-- Words were taken and nothing was noted. -/
theorem Extends.of_pass (pass : Pass) : Extends s outer j { j with pass } where
  trail := rfl
  calls := ⟨[], (List.append_nil _).symm, nofun⟩

theorem Extends.refl (j : Journal) : Extends s outer j j := .of_pass j.pass

theorem Extends.trans (first : Extends s outer j mid) (second : Extends s outer mid later) :
    Extends s outer j later where
  trail := second.trail.trans first.trail
  calls := by
    obtain ⟨calls, noted, inside⟩ := first.calls
    obtain ⟨more, noted', inside'⟩ := second.calls
    refine ⟨calls ++ more, by rw [noted', noted, List.append_assoc], fun call there => ?_⟩
    exact (List.mem_append.mp there).elim (inside call) (inside' call)

theorem extends_note {task : Task} : Extends s (j.trail, task) j (j.note task) where
  trail := rfl
  calls := ⟨_, rfl, fun _ there => List.mem_singleton.mp there ▸ .refl⟩

/-- What an inner call notes is inside the outer one. -/
theorem Extends.inside (h : Extends s inner j later) (call : s.Inside inner outer) :
    Extends s outer j later where
  trail := h.trail
  calls := by
    obtain ⟨calls, noted, inside⟩ := h.calls
    exact ⟨calls, noted, fun c there => (inside c there).tail call⟩

/-- Stepping off behind what was done further along restores the trail. -/
theorem Extends.leave {t : Target} {longer : Trail} {rules : List Rule}
    (steps : j.trail.step? t = some longer)
    (h : Extends s (longer, .rules rules) ((j.enter longer).note (.rules rules)) later) :
    Extends s (longer, .rules rules) j later.leave where
  trail := by
    have onto : later.trail = t :: j.trail := h.trail.trans (Trail.eq_cons_of_step? steps)
    rw [Journal.leave, onto, List.tail_cons]
  calls := ((extends_note (j := j.enter longer)).trans h).calls

/-- Steps that are made in a call answer as expected, and extend the journal. -/
def Returns {α : Type} (s : Store) (outer : Trail × Task) (j : Journal)
    (expected : Outcome α × Pass) (actual : Option (Outcome α × Journal)) : Prop :=
  ∃ later, actual = some (expected.1, later) ∧ later.pass = expected.2 ∧ Extends s outer j later

section
variable {α β : Type} {x : Steps Journal α} {f : α → Steps Journal β} {pass next : Pass}
  {expected : Outcome β × Pass}

theorem returns_here {outcome : Outcome α} (same : j.pass = pass) :
    Returns s outer j (outcome, pass) (some (outcome, j)) :=
  ⟨j, rfl, same, .refl j⟩

/-- What was done before some steps counts to them. -/
theorem Extends.returns {actual : Option (Outcome β × Journal)} (before : Extends s outer j mid)
    (h : Returns s outer mid expected actual) : Returns s outer j expected actual := by
  obtain ⟨later, ran, pass, extended⟩ := h
  exact ⟨later, ran, pass, before.trans extended⟩

theorem Returns.inside {expected : Outcome α × Pass} {actual : Option (Outcome α × Journal)}
    (h : Returns s inner j expected actual) (call : s.Inside inner outer) :
    Returns s outer j expected actual := by
  obtain ⟨later, ran, pass, extended⟩ := h
  exact ⟨later, ran, pass, extended.inside call⟩

theorem Returns.bind_error {e : Error} (h : Returns s outer j (.error e, next) (x.on j)) :
    Returns s outer j (.error e, next) ((x >>= f).on j) := by
  obtain ⟨later, ran, pass, extended⟩ := h
  exact ⟨later, on_bind_error ran, pass, extended⟩

theorem Returns.bind_ok {a : α} (h : Returns s outer j (.ok a, next) (x.on j))
    (others : ∀ there : Journal, there.pass = next → there.trail = j.trail →
      Returns s outer there expected ((f a).on there)) :
    Returns s outer j expected ((x >>= f).on j) := by
  obtain ⟨there, ran, pass, extended⟩ := h
  rw [on_bind_ok ran]
  exact extended.returns (others there pass extended.trail)

/-- Steps that take no words go on like steps without a journal. -/
theorem Returns.bind {outcome : Outcome α} {g : α → Outcome β}
    (h : Returns s outer j (outcome, j.pass) (x.on j))
    (others : ∀ a, ∀ there : Journal, there.pass = j.pass → there.trail = j.trail →
      Returns s outer there (g a, there.pass) ((f a).on there)) :
    Returns s outer j (outcome >>= g, j.pass) ((x >>= f).on j) := by
  cases outcome with
  | error e => exact h.bind_error
  | ok a => exact h.bind_ok fun there pass along => pass ▸ others a there pass along

theorem Returns.map {outcome : Outcome α} {g : α → β}
    (h : Returns s outer j (outcome, j.pass) (x.on j)) :
    Returns s outer j (outcome >>= fun a => .ok (g a), j.pass)
      ((x >>= fun a => pure (g a)).on j) :=
  h.bind fun _ _ _ _ => returns_here rfl

theorem returns_draw {choice : Pass → α × Pass} {a : α} (chosen : choice j.pass = (a, next))
    (others : ∀ there : Journal, there.pass = next → there.trail = j.trail →
      Returns s outer there expected ((f a).on there)) :
    Returns s outer j expected ((modifyGet (draw choice) >>= f).on j) := by
  have drawn : j.draw choice = (a, { j with pass := next }) := by rw [draw, chosen]
  rw [on_choice drawn]
  exact (Extends.of_pass next).returns (others _ rfl rfl)

theorem returns_of {outcome : Outcome α} {a : α} (ok : outcome = .ok a)
    (others : Returns s outer j expected ((f a).on j)) :
    Returns s outer j expected ((Steps.of outcome >>= f).on j) := by
  rw [ok, on_bind_ok (on_of _)]
  exact others

theorem returns_call {walk : Walk β} {pieces : List Piece}
    (body : ∀ there : Journal, there.pass = j.pass → there.trail = j.trail →
      Returns s (j.trail, .pieces pieces) there expected ((walk pieces).on there)) :
    Returns s (j.trail, .pieces pieces) j expected ((walk.call pieces).on j) :=
  extends_note.returns (body (j.note (.pieces pieces)) rfl rfl)

/-- Steps for each thing in a list, none of which takes words. -/
theorem returns_mapM {l : List β} {trail : Trail} {g : β → Outcome α} {x : β → Steps Journal α}
    (each : ∀ b ∈ l, ∀ there : Journal, there.trail = trail →
      Returns s outer there (g b, there.pass) ((x b).on there)) (here : j.trail = trail) :
    Returns s outer j (l.mapM g, j.pass) ((l.mapM x).on j) := by
  induction l generalizing j with
  | nil => exact returns_here rfl
  | cons b rest ih =>
    rw [List.mapM_cons, List.mapM_cons]
    refine (each b List.mem_cons_self j here).bind fun a there _ along => ?_
    exact (ih (fun b hb => each b (List.mem_cons_of_mem _ hb)) (along.trans here)).map

/-- Steps on the rules of a target that a walk can step onto. -/
theorem returns_further {t : Target} {longer : Trail} {rules : List Rule}
    {expected : Outcome α × Pass} (steps : j.trail.step? t = some longer)
    (call : s.Inside (longer, .rules rules) outer)
    (body : ∀ there : Journal, there.pass = j.pass → there.trail = longer →
      Returns s (longer, .rules rules) there expected (x.on there)) :
    Returns s outer j expected ((further longer rules x).on j) := by
  obtain ⟨later, ran, pass, extended⟩ := body ((j.enter longer).note (.rules rules)) rfl rfl
  exact ⟨later.leave, on_andThen Journal.leave ran, pass, (extended.leave steps).inside call⟩

end
end Journal

namespace Store

open Steps Journal

variable {s : Store} {trail : Trail}

/-- Called on pieces with a journal on a trail, a walk answers as expected there. -/
def Agrees {α : Type} (s : Store) (walk : Walk α)
    (expected : Trail → List Piece → Pass → Outcome α × Pass) (trail : Trail) (ps : List Piece) :
    Prop :=
  ∀ j : Journal, j.trail = trail →
    Returns s (trail, .pieces ps) j (expected trail ps j.pass) ((walk.call ps).on j)

/-- An answer that takes no words. -/
abbrev still {α : Type} (answer : Trail → List Piece → Outcome α) (trail : Trail)
    (ps : List Piece) (pass : Pass) : Outcome α × Pass :=
  (answer trail ps, pass)

section
variable {α : Type} {walk : Walk α}

theorem agrees_nil {expected : Trail → List Piece → Pass → Outcome α × Pass} {a : α}
    (unfolds : walk [] = pure a) (none : ∀ pass, expected trail [] pass = (.ok a, pass)) :
    s.Agrees walk expected trail [] := by
  rintro j rfl
  refine returns_call fun there pass _ => ?_
  rw [unfolds, none, ← pass]
  exact returns_here rfl

/-- A walk that takes no words, at a piece with the steps for it and at those after it. -/
theorem agrees_cons {answer : Trail → List Piece → Outcome α} {p : Piece} {rest : List Piece}
    {x : Steps Journal α} {one : Outcome α} {join : α → α → α}
    (unfolds : walk (p :: rest) = (do
      let first ← x
      let others ← Walk.call walk rest
      return join first others))
    (splits : answer trail (p :: rest) = (do
      let first ← one
      let others ← answer trail rest
      return join first others))
    (first : ∀ j : Journal, j.trail = trail →
      Returns s (trail, .pieces (p :: rest)) j (one, j.pass) (x.on j))
    (others : s.Agrees walk (still answer) trail rest) :
    s.Agrees walk (still answer) trail (p :: rest) := by
  rintro j rfl
  refine returns_call fun there pass along => ?_
  rw [unfolds, still, splits, ← pass]
  refine (first there along).bind fun a next _ on => ?_
  exact ((others next (on.trans along)).inside .rest).map

end

/-! ## Counting -/

theorem countRules_eq_mapM (rules : List Rule) : s.countRules trail rules = (do
    let counted ← rules.mapM fun r => s.countPieces trail r.pieces
    return counted.foldr .plus (.finite 0)) := by
  induction rules with
  | nil => exact countRules_nil
  | cons r rest ih =>
    rw [countRules_cons, ih, List.mapM_cons]
    simp only [bind_assoc, pure_bind, List.foldr_cons]

/-- Counting answers as on a trail of its own. -/
theorem agrees_countPieces (s : Store) (trail : Trail) (ps : List Piece) :
    s.Agrees s.countPiecesNoted (still s.countPieces) trail ps := by
  refine (s.walk_induction (P := s.Agrees s.countPiecesNoted (still s.countPieces))
    (Q := fun trail p => ∀ rest, s.Agrees s.countPiecesNoted (still s.countPieces) trail rest →
      s.Agrees s.countPiecesNoted (still s.countPieces) trail (p :: rest))
    ?word ?group ?reference ?nil (fun _ _ rest first => first rest) trail).2 ps
  case word =>
    intro trail text rest others
    refine agrees_cons (by rw [countPiecesNoted]) (countPieces_cons _ _) (fun j _ => ?_) others
    rw [countPiece_word, ite_self]
    exact returns_here rfl
  case group =>
    intro trail pieces value m body rest others
    refine agrees_cons (by rw [countPiecesNoted]) (countPieces_cons _ _) (fun j here => ?_) others
    cases excluded : (Piece.group pieces value m).isExcluded with
    | true =>
      rw [countPiece_excluded excluded]
      exact returns_here rfl
    | false =>
      rw [countPiece_group excluded]
      exact (body j here).inside .group
  case reference =>
    intro trail kind name m bodies rest others
    refine agrees_cons (by rw [countPiecesNoted]) (countPieces_cons _ _) (fun j here => ?_) others
    cases excluded : (Piece.reference kind name m).isExcluded with
    | true =>
      rw [countPiece_excluded excluded]
      exact returns_here rfl
    | false =>
      cases resolves : s.resolve ⟨kind, name, m.variation⟩ with
      | error e =>
        rw [countPiece_unresolved excluded resolves]
        exact ⟨j, on_bind_error (on_of _), rfl, .refl j⟩
      | ok found =>
        obtain ⟨d, rules⟩ := found
        refine returns_of rfl ?_
        rw [on_bind_ok on_get, here]
        cases steps : trail.step? ⟨kind, name, m.variation⟩ with
        | none =>
          rw [countPiece_cycle excluded resolves steps]
          exact returns_here rfl
        | some longer =>
          rw [countPiece_reference excluded resolves steps, countRules_eq_mapM]
          have counted := bodies d rules longer resolves steps
          refine (returns_further (here ▸ steps) (.meant resolves steps) ?_).map
          intro there pass on
          rw [← pass]
          refine returns_mapM (fun r hr next on' => ?_) on
          exact (counted r hr next on').inside (.rule hr)
  case nil =>
    exact fun trail => agrees_nil (by rw [countPiecesNoted]) fun pass => by
      rw [still, countPieces_nil]

/-! ## Listing -/

theorem listRules_eq_mapM (kind : Kind) (name : String) (rules : List Rule) :
    s.listRules trail kind name rules = (do
      let listed ← rules.mapM fun r => do
        let fragments ← s.listPieces trail r.pieces
        return fragments.map fun f => if kind = .slot then f.tagged name r.value f.text else f
      return listed.flatten) := by
  induction rules with
  | nil => exact listRules_nil
  | cons r rest ih =>
    rw [listRules_cons, ih, List.mapM_cons]
    simp only [bind_assoc, pure_bind, List.flatten_cons]

/-- So does listing. -/
theorem agrees_listPieces (s : Store) (trail : Trail) (ps : List Piece) :
    s.Agrees s.listPiecesNoted (still s.listPieces) trail ps := by
  refine (s.walk_induction (P := s.Agrees s.listPiecesNoted (still s.listPieces))
    (Q := fun trail p => ∀ rest, s.Agrees s.listPiecesNoted (still s.listPieces) trail rest →
      s.Agrees s.listPiecesNoted (still s.listPieces) trail (p :: rest))
    ?word ?group ?reference ?nil (fun _ _ rest first => first rest) trail).2 ps
  case word =>
    intro trail text rest others
    refine agrees_cons (by rw [listPiecesNoted]) (listPieces_cons _ _) (fun j _ => ?_) others
    have included : ¬(Piece.word text).isExcluded = true := Bool.false_ne_true
    rw [listPiece_word, if_neg included]
    exact returns_here rfl
  case group =>
    intro trail pieces value m body rest others
    refine agrees_cons (by rw [listPiecesNoted]) (listPieces_cons _ _) (fun j here => ?_) others
    cases excluded : (Piece.group pieces value m).isExcluded with
    | true =>
      rw [listPiece_excluded excluded]
      exact returns_here rfl
    | false =>
      rw [listPiece_group excluded]
      exact (body j here).inside .group
  case reference =>
    intro trail kind name m bodies rest others
    refine agrees_cons (by rw [listPiecesNoted]) (listPieces_cons _ _) (fun j here => ?_) others
    cases excluded : (Piece.reference kind name m).isExcluded with
    | true =>
      rw [listPiece_excluded excluded]
      exact returns_here rfl
    | false =>
      cases resolves : s.resolve ⟨kind, name, m.variation⟩ with
      | error e =>
        rw [listPiece_unresolved excluded resolves]
        exact ⟨j, on_bind_error (on_of _), rfl, .refl j⟩
      | ok found =>
        obtain ⟨d, rules⟩ := found
        refine returns_of rfl ?_
        rw [on_bind_ok on_get, here]
        cases steps : trail.step? ⟨kind, name, m.variation⟩ with
        | none =>
          rw [listPiece_cycle excluded resolves steps, Trail.step, steps]
          exact ⟨j, on_bind_error (on_of _), rfl, .refl j⟩
        | some longer =>
          rw [listPiece_reference excluded resolves steps, listRules_eq_mapM]
          refine returns_of (Trail.step_eq_ok.mpr steps) ?_
          have listed := bodies d rules longer resolves steps
          refine (returns_further (here ▸ steps) (.meant resolves steps) ?_).map
          intro there pass on
          rw [← pass]
          refine returns_mapM (fun r hr next on' => ?_) on
          exact ((listed r hr next on').inside (.rule hr)).map
  case nil =>
    exact fun trail => agrees_nil (by rw [listPiecesNoted]) fun pass => by
      rw [still, listPieces_nil]

/-! ## Expanding -/

/-- A piece with the steps for it, and those after it. -/
theorem agrees_expand_cons {p : Piece} {rest : List Piece} {x : Steps Journal Fragment}
    (unfolds : s.expandPiecesNoted (p :: rest) = (do
      let f ← x
      let g ← Walk.call s.expandPiecesNoted rest
      return f.append g))
    (first : ∀ j : Journal, j.trail = trail →
      Returns s (trail, .pieces (p :: rest)) j (s.expandPiece trail p j.pass) (x.on j))
    (others : s.Agrees s.expandPiecesNoted s.expandPieces trail rest) :
    s.Agrees s.expandPiecesNoted s.expandPieces trail (p :: rest) := by
  rintro j rfl
  refine returns_call fun there pass along => ?_
  rw [unfolds, ← pass]
  have h := first there along
  have after : ∀ next : Journal, next.trail = there.trail →
      Returns s (j.trail, .pieces (p :: rest)) next (s.expandPieces j.trail rest next.pass)
        ((Walk.call s.expandPiecesNoted rest).on next) :=
    fun next on => (others next (on.trans along)).inside .rest
  have expanded := s.expandPieces_expanded j.trail p rest there.pass
  generalize s.expandPieces j.trail (p :: rest) there.pass = expected at expanded
  cases expanded with
  | failed fails =>
    rw [fails] at h
    exact h.bind_error
  | failedLater one fails =>
    rw [one] at h
    refine h.bind_ok fun next pass on => ?_
    have later := after next on
    rw [pass, fails] at later
    exact later.bind_error
  | done one all =>
    rw [one] at h
    refine h.bind_ok fun next pass on => ?_
    have later := after next on
    rw [pass, all] at later
    exact later.bind_ok fun last pass _ => returns_here pass

/-- A reference that is taken and resolves goes on with the rule that is drawn for it. -/
theorem returns_drawnRule {kind : Kind} {name : String} {m : Modifiers} {rest : List Piece}
    {pass next chosen : Pass} {d : Definition} {rules : List Rule} {rule : Rule} {j : Journal}
    (taken : pass.includes m = (true, next))
    (resolves : s.resolve ⟨kind, name, m.variation⟩ = .ok (d, rules))
    (draws : next.choose rules = (some rule, chosen))
    (body : ∀ longer, trail.step? ⟨kind, name, m.variation⟩ = some longer →
      s.Agrees s.expandPiecesNoted s.expandPieces longer rule.pieces)
    (here : j.trail = trail) (words : j.pass = chosen) :
    Returns s (trail, .pieces (.reference kind name m :: rest)) j
      (s.expandPiece trail (.reference kind name m) pass) (Steps.on (do
        let longer ← Steps.of (j.trail.step ⟨kind, name, m.variation⟩)
        let f ← further longer rules (Walk.call s.expandPiecesNoted rule.pieces)
        let casing ← modifyGet (draw (Pass.casing (m.casing || d.casing)))
        return f.shown kind name rule.value casing) j) := by
  cases steps : trail.step? ⟨kind, name, m.variation⟩ with
  | none =>
    rw [expandPiece_cycle taken resolves draws steps, here, Trail.step, steps]
    exact ⟨j, on_bind_error (on_of _), words, .refl j⟩
  | some longer =>
    refine returns_of (here ▸ Trail.step_eq_ok.mpr steps) ?_
    have h : Returns s (trail, .pieces (.reference kind name m :: rest)) j
        (s.expandPieces longer rule.pieces j.pass)
        ((further longer rules (Walk.call s.expandPiecesNoted rule.pieces)).on j) := by
      refine returns_further (here ▸ steps) (.meant resolves steps) fun there pass on => ?_
      rw [← pass]
      exact (body longer steps there on).inside (.rule (mem_of_choose draws))
    cases expands : s.expandPieces longer rule.pieces chosen with
    | mk outcome last =>
      rw [expandPiece_reference taken resolves draws steps expands]
      rw [words, expands] at h
      cases outcome with
      | error e => exact h.bind_error
      | ok f =>
        refine h.bind_ok fun later pass _ => ?_
        subst pass
        exact returns_draw rfl fun after pass _ => returns_here pass

/-- And expanding, with the words of the journal. -/
theorem agrees_expandPieces (s : Store) (trail : Trail) (ps : List Piece) :
    s.Agrees s.expandPiecesNoted s.expandPieces trail ps := by
  refine (s.walk_induction (P := s.Agrees s.expandPiecesNoted s.expandPieces)
    (Q := fun trail p => ∀ rest, s.Agrees s.expandPiecesNoted s.expandPieces trail rest →
      s.Agrees s.expandPiecesNoted s.expandPieces trail (p :: rest))
    ?word ?group ?reference ?nil (fun _ _ rest first => first rest) trail).2 ps
  case word =>
    intro trail text rest others
    refine agrees_expand_cons (by rw [expandPiecesNoted]) (fun j _ => ?_) others
    rw [expandPiece_word]
    exact returns_here rfl
  case group =>
    intro trail pieces value m body rest others
    refine agrees_expand_cons (by rw [expandPiecesNoted]) (fun j here => ?_) others
    have inner : ∀ there : Journal, there.trail = j.trail →
        Returns s (trail, .pieces (.group pieces value m :: rest)) there
          (s.expandPieces trail pieces there.pass)
          ((Walk.call s.expandPiecesNoted pieces).on there) :=
      fun there along => (body there (along.trans here)).inside .group
    have expanded := s.expandPiece_expanded trail (.group pieces value m) j.pass
    generalize s.expandPiece trail (.group pieces value m) j.pass = expected at expanded
    cases expanded with
    | groupLeft left =>
      exact returns_draw left fun there pass _ => returns_here pass
    | groupFailed taken fails =>
      refine returns_draw taken fun there pass along => ?_
      have h := inner there along
      rw [pass, fails] at h
      exact h.bind_error
    | group taken expands =>
      refine returns_draw taken fun there pass along => ?_
      have h := inner there along
      rw [pass, expands] at h
      refine h.bind_ok fun last pass _ => ?_
      rw [← pass]
      exact returns_draw rfl fun later pass _ => returns_here pass
  case reference =>
    intro trail kind name m bodies rest others
    refine agrees_expand_cons (by rw [expandPiecesNoted]) (fun j here => ?_) others
    cases taken : j.pass.includes m with
    | mk decision next =>
      cases decision with
      | false =>
        rw [expandPiece_reference_left taken]
        exact returns_draw taken fun there pass _ => returns_here pass
      | true =>
        refine returns_draw taken fun there pass along => ?_
        rw [if_pos rfl]
        cases resolves : s.resolve ⟨kind, name, m.variation⟩ with
        | error e =>
          rw [expandPiece_unresolved taken resolves]
          exact ⟨there, on_bind_error (on_of _), pass, .refl there⟩
        | ok found =>
          obtain ⟨d, rules⟩ := found
          refine returns_of rfl ?_
          cases draws : next.choose rules with
          | mk drawn chosen =>
            refine returns_draw (pass ▸ draws) fun later words on => ?_
            cases drawn with
            | none =>
              rw [expandPiece_ruleless taken resolves draws]
              exact returns_here words
            | some rule =>
              rw [on_bind_ok on_get]
              refine returns_drawnRule taken resolves draws ?_ (on.trans (along.trans here)) words
              exact fun longer steps =>
                bodies d rules longer resolves steps rule (mem_of_choose draws)
  case nil =>
    exact fun trail => agrees_nil (by rw [expandPiecesNoted]) fun pass => expandPieces_nil pass

/-! ## All walks -/

/-- Back on its trail, a journal has noted calls inside a call on the rule. On the trails of these
calls there are, besides what was there at the start, targets that resolve, each once. There is room
for as many as there are definitions and names of their variations. -/
def Noted (s : Store) (r : Rule) (j later : Journal) : Prop :=
  later.trail = j.trail ∧ ∃ calls, later.calls = j.calls ++ calls ∧ ∀ call ∈ calls,
    ReflTransGen s.Inside call (j.trail, .pieces r.pieces) ∧
      ∃ added, s.Onward j.trail call.1 added ∧ added.length ≤
        (s.all.map fun d => 1 + (d.variations.filterMap (·.name)).dedup.length).sum

theorem noted_of_extends {r : Rule} {j later : Journal}
    (h : Extends s (j.trail, .pieces r.pieces) j later) : s.Noted r j later := by
  obtain ⟨calls, noted, inside⟩ := h.calls
  refine ⟨h.trail, calls, noted, fun call there => ⟨inside call there, ?_⟩⟩
  obtain ⟨added, onward⟩ := trail_of_inside (inside call there)
  exact ⟨added, onward, length_frames ▸ onward.length_le⟩

/-- **Every walk ends.** Nothing bounds the walks that expand, count and list a rule, and in every
store, from every trail and with all words, they come to a result or to an error, the one that the
bounded walks come to. Their calls make no endless descent, since each of them leaves fewer of the
targets that resolve to step onto, or as many and a smaller task. -/
theorem walks_end (s : Store) (r : Rule) (j : Journal) :
    (∃ later, (Walk.call s.expandPiecesNoted r.pieces).on j =
        some ((s.expandRule j.trail r j.pass).1, later) ∧
      later.pass = (s.expandRule j.trail r j.pass).2 ∧ s.Noted r j later) ∧
    (∃ later, (Walk.call s.countPiecesNoted r.pieces).on j = some (s.countRule j.trail r, later) ∧
      s.Noted r j later) ∧
    (∃ later, (Walk.call s.listPiecesNoted r.pieces).on j = some (s.listRule j.trail r, later) ∧
      s.Noted r j later) ∧
    WellFounded s.Inside ∧
    (∀ inner outer, s.Inside inner outer →
      Prod.Lex (· < ·) (· < ·) (s.left inner) (s.left outer)) ∧
    s.frames.Nodup ∧ ∀ t, t ∈ s.frames ↔ s.Resolves t := by
  refine ⟨?expanding, ?counting, ?listing, s.wellFounded_inside, fun _ _ => inside_decreases,
    nodup_frames, fun _ => mem_frames⟩
  case expanding =>
    obtain ⟨later, ran, pass, extended⟩ := agrees_expandPieces s j.trail r.pieces j rfl
    exact ⟨later, ran, pass, noted_of_extends extended⟩
  case counting =>
    obtain ⟨later, ran, _, extended⟩ := agrees_countPieces s j.trail r.pieces j rfl
    exact ⟨later, ran, noted_of_extends extended⟩
  case listing =>
    obtain ⟨later, ran, _, extended⟩ := agrees_listPieces s j.trail r.pieces j rfl
    exact ⟨later, ran, noted_of_extends extended⟩

end Store
end Phrasebook
