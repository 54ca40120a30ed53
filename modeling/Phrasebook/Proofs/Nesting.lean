import Mathlib.Logic.Relation
import Phrasebook.Proofs.Faults
import Phrasebook.Proofs.Joining

/-!
# Files inside files

Reading a template goes from stage to stage: a file is to be added, or the rest of its lines.

* `Stage.Comes`: the stages that a stage comes to, and `wellFounded_comes`: never without end;
* `Stage.chain_of_reaches`: the files that are being read are different files, and all of them there
  are;
* `Stage.fails_of_reaches`: where a later stage fails, reading fails, with the same error at the
  root;
* `Stage.circular_iff`: reading fails for a file that includes itself just when it comes to one.
-/

namespace Phrasebook

theorem Error.root_locate (origin : String) (n : Nat) (e : Error) :
    (e.locate origin n).root = e.root := by
  cases e <;> rfl

namespace Template

open Relation

/-- What is left to do at some point of reading a template. -/
inductive Stage where
  | file (chain : List Place) (path : String) (store : Store)
  | lines (chain : List Place) (origin base : String) (n : Nat) (raws : List (List Char))
      (pending : Option Pending) (store : Store)

namespace Stage

def outcome (fs : Files) : Stage → Outcome Store
  | file chain path store => addFile fs chain path store
  | lines chain origin base n raws pending store =>
    addLines fs chain origin base n raws pending store

/-- The files that are being read, innermost first. -/
def chain : Stage → List Place
  | file chain _ _ => chain
  | lines chain _ _ _ _ _ _ => chain

variable {fs : Files}

/-- A stage comes to another that its outcome depends on. At a line that includes a file there are
two: the file is added, and after it the lines that follow. -/
inductive Comes (fs : Files) : Stage → Stage → Prop
  | opened {chain path store place text} (located : fs.locate path = .ok place)
      (absent : place ∉ chain) (reads : fs.textAt place = .ok text) :
      Comes fs (file chain path store)
        (lines (place :: chain) path (Place.written place.tail) 1 (Text.lines text.toList) none
          store)
  | blank {chain origin base n raw rest pending store} (line : TemplateLine.read raw = .blank) :
      Comes fs (lines chain origin base n (raw :: rest) pending store)
        (lines chain origin base (n + 1) rest pending store)
  | rule {chain origin base n raw rest text p r store} (line : TemplateLine.read raw = .rule text)
      (reads : Rule.readFor p.declaration.kind (.ofList text) = .ok r) :
      Comes fs (lines chain origin base n (raw :: rest) (some p) store)
        (lines chain origin base (n + 1) rest (some (p.addRule r)) store)
  | inclusion {chain origin base n raw rest target pending store settled}
      (line : TemplateLine.read raw = .inclusion target)
      (settles : Pending.settle origin store pending = .ok settled)
      (named : target.isEmpty = false) :
      Comes fs (lines chain origin base n (raw :: rest) pending store)
        (file chain (Path.join base (.ofList target)) settled)
  | included {chain origin base n raw rest target pending store settled included}
      (line : TemplateLine.read raw = .inclusion target)
      (settles : Pending.settle origin store pending = .ok settled)
      (named : target.isEmpty = false)
      (adds : addFile fs chain (Path.join base (.ofList target)) settled = .ok included) :
      Comes fs (lines chain origin base n (raw :: rest) pending store)
        (lines chain origin base (n + 1) rest none included)
  | declaration {chain origin base n raw rest text pending store settled d}
      (line : TemplateLine.read raw = .declaration text)
      (settles : Pending.settle origin store pending = .ok settled)
      (reads : Declaration.read text = .ok d) :
      Comes fs (lines chain origin base n (raw :: rest) pending store)
        (lines chain origin base (n + 1) rest (some ⟨d, n⟩) settled)

/-- A stage that reading comes to, in any number of steps. -/
abbrev Reaches (fs : Files) : Stage → Stage → Prop := ReflTransGen (Comes fs)

/-! ## Termination -/

/-- What gets smaller: the files that are not being read yet, and after them the lines. -/
def size (fs : Files) : Stage → Nat × Nat
  | file chain _ _ => (unvisited (places fs) chain, 0)
  | lines chain _ _ _ raws _ _ => (unvisited (places fs) chain, raws.length + 1)

theorem size_comes {outer inner : Stage} (h : Comes fs outer inner) :
    Prod.Lex (· < ·) (· < ·) (inner.size fs) (outer.size fs) := by
  cases h with
  | opened _ absent reads =>
    exact .left _ _ (unvisited_cons_lt (mem_places_of_textAt reads) absent)
  | inclusion => exact .right _ (Nat.succ_pos _)
  | blank | rule | included | declaration => exact .right _ (Nat.lt_succ_self _)

/-- There is no endless descent into files and lines. -/
theorem wellFounded_comes (fs : Files) : WellFounded fun inner outer => Comes fs outer inner :=
  Subrelation.wf size_comes
    (InvImage.wf (size fs) (Prod.lex Nat.lt_wfRel Nat.lt_wfRel).wf)

/-! ## The chain -/

/-- Each file is read once at a time, and is a file that there is. -/
def Chained (fs : Files) (chain : List Place) : Prop :=
  chain.Nodup ∧ ∀ place ∈ chain, place ∈ places fs

theorem chained_nil : Chained fs [] :=
  ⟨List.nodup_nil, fun _ there => absurd there List.not_mem_nil⟩

theorem chained_comes {outer inner : Stage} (h : Comes fs outer inner)
    (chained : Chained fs outer.chain) : Chained fs inner.chain := by
  cases h with
  | opened _ absent reads =>
    refine ⟨List.nodup_cons.mpr ⟨absent, chained.1⟩, fun place there => ?_⟩
    rcases List.mem_cons.mp there with rfl | there
    · exact mem_places_of_textAt reads
    · exact chained.2 place there
  | blank | rule | inclusion | included | declaration => exact chained

theorem chained_of_reaches {outer inner : Stage} (h : Reaches fs outer inner)
    (chained : Chained fs outer.chain) : Chained fs inner.chain := by
  induction h with
  | refl => exact chained
  | tail _ step ih => exact chained_comes step ih

/-! ## Failing -/

theorem fails_comes {outer inner : Stage} {e : Error} (h : Comes fs outer inner)
    (fails : inner.outcome fs = .error e) :
    ∃ e', outer.outcome fs = .error e' ∧ e'.root = e.root := by
  cases h with
  | opened located absent reads => exact ⟨e, (addFile_opened located absent reads).trans fails, rfl⟩
  | blank line => exact ⟨e, (addLines_blank line).trans fails, rfl⟩
  | rule line reads =>
    refine ⟨e, ?_, rfl⟩
    rw [outcome, addLines, line]
    dsimp only
    rw [reads]
    exact fails
  | @inclusion chain origin base n raw rest target pending store settled line settles named =>
    refine ⟨e.locate origin n, ?_, Error.root_locate origin n e⟩
    rw [outcome] at fails
    rw [outcome, addLines, line]
    dsimp only
    rw [settles]
    dsimp only
    rw [if_neg (by simp [named]), fails]
  | included line settles named adds =>
    refine ⟨e, ?_, rfl⟩
    rw [outcome, addLines, line]
    dsimp only
    rw [settles]
    dsimp only
    rw [if_neg (by simp [named]), adds]
    exact fails
  | declaration line settles reads =>
    refine ⟨e, ?_, rfl⟩
    rw [outcome, addLines, line]
    dsimp only
    rw [settles]
    dsimp only
    rw [reads]
    exact fails

/-- An error is handed on from stage to stage, and found where it began at its root. -/
theorem fails_of_reaches {outer inner : Stage} {e : Error} (h : Reaches fs outer inner)
    (fails : inner.outcome fs = .error e) :
    ∃ e', outer.outcome fs = .error e' ∧ e'.root = e.root := by
  induction h generalizing e with
  | refl => exact ⟨e, fails, rfl⟩
  | tail _ step ih =>
    obtain ⟨e', fails', root⟩ := fails_comes step fails
    obtain ⟨e'', fails'', root'⟩ := ih fails'
    exact ⟨e'', fails'', root'.trans root⟩

/-- A file is to be added that is being read already. -/
def Again (fs : Files) (path : String) (stage : Stage) : Prop :=
  ∃ chain store place, stage = file chain path store ∧ fs.locate path = .ok place ∧ place ∈ chain

variable {path : String} {stage : Stage} {e : Error}

theorem fails_of_again (again : stage.Again fs path) :
    stage.outcome fs = .error (.notIncluded path .circular) := by
  obtain ⟨chain, store, place, rfl, located, there⟩ := again
  rw [outcome, addFile]
  split
  · simp_all
  · next place' located' =>
    obtain rfl : place = place' := Except.ok.inj (located.symm.trans located')
    rw [dif_pos there]

/-- The error of a line itself is not about a file. -/
theorem not_included_of_local {origin : String} {n : Nat} {fault : IncludeFault}
    (here : e.Local) : (e.locate origin n).root ≠ .notIncluded path fault := by
  intro included
  rw [here.locate, Error.root, here.root] at included
  rw [included] at here
  exact here

theorem comes_of_file_fails {chain : List Place} {path' : String} {store : Store}
    (fails : outcome fs (file chain path' store) = .error e)
    (circular : e.root = .notIncluded path .circular) :
    Again fs path (file chain path' store) ∨
      ∃ inner, Comes fs (file chain path' store) inner ∧ inner.outcome fs = .error e := by
  rw [outcome, addFile] at fails
  split at fails
  · cases fails
    cases circular
  · next place located =>
    split at fails
    · next there =>
      cases fails
      cases circular
      exact .inl ⟨chain, store, place, rfl, located, there⟩
    · next absent =>
      split at fails
      · cases fails
        cases circular
      · next text reads => exact .inr ⟨_, .opened located absent reads, fails⟩

/-- An error that is about a file is not the line's own, so it is handed on. -/
theorem comes_of_lines_fail {chain : List Place} {origin base : String} {n : Nat}
    {raws : List (List Char)} {pending : Option Pending} {store : Store} {fault : IncludeFault}
    (fails : outcome fs (lines chain origin base n raws pending store) = .error e)
    (included : e.root = .notIncluded path fault) :
    ∃ inner e', Comes fs (lines chain origin base n raws pending store) inner ∧
      inner.outcome fs = .error e' ∧ e'.root = e.root := by
  have unsettled : Pending.settle origin store pending ≠ .error e := fun fails =>
    Pending.fails_settle (P := fun e => e.root ≠ .notIncluded path fault) store pending
      (fun d _ e fails => not_included_of_local (Store.fails_declare _ d e fails)) e fails included
  have own : ∀ e' : Error, e'.Local → e ≠ e'.locate origin n := by
    rintro e' here rfl
    exact not_included_of_local here included
  cases raws with
  | nil =>
    rw [outcome, addLines] at fails
    exact absurd fails unsettled
  | cons raw rest =>
    rw [outcome, addLines] at fails
    cases line : TemplateLine.read raw with
    | blank =>
      rw [line] at fails
      exact ⟨_, e, .blank line, fails, rfl⟩
    | rule text =>
      rw [line] at fails
      cases pending with
      | none =>
        cases fails
        exact absurd rfl (own (.badLine _ _) trivial)
      | some p =>
        dsimp only at fails
        cases reads : Rule.readFor p.declaration.kind (.ofList text) with
        | error e' =>
          rw [reads] at fails
          cases fails
          exact absurd rfl (own e' (Rule.fails_readFor _ _ e' reads))
        | ok r =>
          rw [reads] at fails
          exact ⟨_, e, .rule line reads, fails, rfl⟩
    | inclusion target =>
      rw [line] at fails
      dsimp only at fails
      cases settled : Pending.settle origin store pending with
      | error e' =>
        rw [settled] at fails
        cases fails
        exact absurd settled unsettled
      | ok grown =>
        rw [settled] at fails
        dsimp only at fails
        split at fails
        · cases fails
          exact absurd rfl (own (.badLine _ _) trivial)
        · next named =>
          have named : target.isEmpty = false := by simpa using named
          cases adds : addFile fs chain (Path.join base (.ofList target)) grown with
          | error e' =>
            rw [adds] at fails
            cases fails
            exact ⟨_, e', .inclusion line settled named, adds, (Error.root_locate _ _ _).symm⟩
          | ok included =>
            rw [adds] at fails
            exact ⟨_, e, .included line settled named adds, fails, rfl⟩
    | declaration text =>
      rw [line] at fails
      dsimp only at fails
      cases settled : Pending.settle origin store pending with
      | error e' =>
        rw [settled] at fails
        cases fails
        exact absurd settled unsettled
      | ok grown =>
        rw [settled] at fails
        dsimp only at fails
        cases reads : Declaration.read text with
        | error e' =>
          rw [reads] at fails
          cases fails
          exact absurd rfl (own e' (Declaration.fails_read _ e' reads))
        | ok d =>
          rw [reads] at fails
          exact ⟨_, e, .declaration line settled reads, fails, rfl⟩
    | unknown text =>
      rw [line] at fails
      dsimp only at fails
      cases settled : Pending.settle origin store pending with
      | error e' =>
        rw [settled] at fails
        cases fails
        exact absurd settled unsettled
      | ok grown =>
        rw [settled] at fails
        cases fails
        exact absurd rfl (own (.badLine _ _) trivial)

theorem comes_of_fails (fails : stage.outcome fs = .error e)
    (circular : e.root = .notIncluded path .circular) : stage.Again fs path ∨
      ∃ inner e', Comes fs stage inner ∧ inner.outcome fs = .error e' ∧ e'.root = e.root := by
  cases stage with
  | file =>
    rcases comes_of_file_fails fails circular with again | ⟨inner, step, fails⟩
    · exact .inl again
    · exact .inr ⟨inner, e, step, fails, rfl⟩
  | lines => exact .inr (comes_of_lines_fail fails circular)

/-- Reading fails for a file that includes itself just when it comes to such a file. -/
theorem circular_iff :
    (∃ e, stage.outcome fs = .error e ∧ e.root = .notIncluded path .circular) ↔
      ∃ inner, Reaches fs stage inner ∧ inner.Again fs path := by
  constructor
  · rintro ⟨e, fails, circular⟩
    induction stage using (wellFounded_comes fs).induction generalizing e with
    | _ stage ih =>
      rcases comes_of_fails fails circular with again | ⟨inner, e', step, fails', root⟩
      · exact ⟨stage, .refl, again⟩
      · obtain ⟨last, reaches, again⟩ := ih inner step e' fails' (root.trans circular)
        exact ⟨last, .head step reaches, again⟩
  · rintro ⟨inner, reaches, again⟩
    exact fails_of_reaches reaches (fails_of_again again)

end Stage
end Template
end Phrasebook
