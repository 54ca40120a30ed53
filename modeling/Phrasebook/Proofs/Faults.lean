import Phrasebook.Proofs.Outcome
import Phrasebook.Proofs.Reading
import Phrasebook.Template

/-!
# Errors of a line alone

What reads a rule or a declaration, and what declares it, sees the line and not the file that it
stands in: the errors have no place yet, and are not about files.

* `Rule.fails_readFor`, `Declaration.fails_read`, `Store.fails_declare`: so it is for each of these;
* `Declaration.plain_readCount`, `Store.plain_declare`: and no misuse of the library, where no block
  is read;
* `Pending.fails_settle`: what is pending is placed at the line of its own;
* `Template.Covers`, `addLines_covered`: what is known of the errors of each line is known of those
  of a template.
-/

namespace Phrasebook

/-- It has no place yet, and is not about a file. -/
def Error.Local : Error → Prop
  | atLine _ _ _ | notIncluded _ _ | file _ => False
  | _ => True

/-- Nor is it a misuse of the library. -/
def Error.Plain : Error → Prop
  | atLine _ _ _ | notIncluded _ _ | file _ | misuse _ => False
  | _ => True

namespace Error

variable {e : Error}

theorem Plain.local (plain : e.Plain) : e.Local := by
  cases e <;> trivial

theorem Local.root (here : e.Local) : e.root = e := by
  cases e with
  | atLine origin line cause => exact absurd here id
  | _ => rfl

theorem Local.locate (here : e.Local) (origin : String) (line : Nat) :
    e.locate origin line = .atLine origin line e := by
  cases e with
  | atLine origin line cause => exact absurd here id
  | _ => rfl

end Error

/-! ## Rules -/

theorem Block.fails_kind? (text : List Char) : FailsAs Error.Local (kind? text) := by
  unfold kind?
  split
  · exact failsAs_ok
  · split
    · exact failsAs_ok
    · exact failsAs_error.mpr trivial
  · exact failsAs_error.mpr trivial

theorem Block.fails_read (text : List Char) : FailsAs Error.Local (read text) := by
  refine (fails_kind? text).bind fun kind => ?_
  dsimp only
  split
  · split
    · exact failsAs_error.mpr trivial
    · split
      · exact failsAs_error.mpr trivial
      · exact failsAs_ok
  · exact failsAs_error.mpr trivial

theorem fails_readPieces (text : String) (word s : List Char) :
    FailsAs Error.Local (readPieces text word s) := by
  fun_induction readPieces text word s with
  | case1 => exact failsAs_ok
  | case2 _ _ _ _ ih => exact ih
  | case3 => exact failsAs_error.mpr trivial
  | case4 _ _ _ _ _ _ _ _ _ _ _ e refused =>
    exact failsAs_error.mpr (Block.fails_read _ e refused)
  | case5 _ _ _ _ _ _ _ _ _ _ _ _ _ _ _ ih => exact ih.map _
  | case6 _ _ _ _ _ _ _ _ _ _ _ _ _ _ e refused ih => exact failsAs_error.mpr (ih e refused)
  | case7 => exact failsAs_error.mpr trivial
  | case8 _ _ _ _ _ _ _ _ _ _ _ _ _ _ _ _ _ _ later => exact later.map _
  | case9 _ _ _ _ _ _ _ ih => exact ih.map _
  | case10 => exact failsAs_error.mpr trivial
  | case11 _ _ _ _ _ _ _ _ ih => exact ih

namespace Rule

theorem fails_read (text : String) : FailsAs Error.Local (read text) := by
  refine (fails_readPieces text [] text.toList).bind fun pieces => ?_
  split
  · exact failsAs_error.mpr trivial
  · exact failsAs_ok

theorem fails_readFor (kind : Kind) (text : String) : FailsAs Error.Local (readFor kind text) := by
  unfold readFor
  split
  · unfold readSlot
    split
    · exact fails_read text
    · next phrase value _ =>
      dsimp only
      split
      · exact failsAs_error.mpr trivial
      · exact (fails_read _).bind fun rule => failsAs_ok
  · exact fails_read text

end Rule

/-! ## Declarations -/

theorem Count.plain_asked (line : String) : FailsAs Error.Plain (asked line) := by
  unfold asked
  split
  · exact failsAs_ok
  · next text others _ =>
    refine FailsAs.bind ?_ fun n => ?_
    · unfold read
      split
      · split
        · exact failsAs_ok
        · exact failsAs_error.mpr trivial
      · exact failsAs_error.mpr trivial
    · split
      · exact failsAs_ok
      · exact failsAs_error.mpr trivial

namespace Declaration

theorem plain_readCount (kind : Kind) (line : String) (after : List Char) :
    FailsAs Error.Plain (readCount kind line after) := by
  unfold readCount
  split
  · exact failsAs_ok
  · split
    · refine (Count.plain_asked line).bind fun count => ?_
      split
      · exact failsAs_error.mpr trivial
      · cases count with
        | none => exact failsAs_error.mpr trivial
        | some n => exact failsAs_ok
    · exact failsAs_error.mpr trivial

theorem fails_read (text : List Char) : FailsAs Error.Local (read text) := by
  unfold read
  dsimp only
  split
  · exact failsAs_error.mpr trivial
  · next before after _ =>
    refine (Block.fails_read _).bind fun block => ?_
    split
    · exact failsAs_error.mpr trivial
    · next kind _ =>
      split
      · exact failsAs_error.mpr trivial
      · have counts := (plain_readCount kind (.ofList text) (Text.trim after)).mono
          fun _ => Error.Plain.local
        exact counts.bind fun count => failsAs_ok

end Declaration

theorem Definition.plain_add (d : Definition) (v : Variation) : FailsAs Error.Plain (d.add v) := by
  unfold add
  split
  · next e refused =>
    refine failsAs_error.mpr ?_
    unfold refusal? at refused
    split at refused
    · cases refused
      trivial
    · split at refused
      · cases refused
        trivial
      · split at refused
        · cases refused
          trivial
        · split at refused
          · cases refused
            trivial
          · cases refused
  · exact failsAs_ok

theorem Store.plain_declare (s : Store) (d : Declaration) : FailsAs Error.Plain (s.declare d) :=
  (Definition.plain_add _ _).bind fun _ => failsAs_ok

theorem Store.fails_declare (s : Store) (d : Declaration) : FailsAs Error.Local (s.declare d) :=
  (plain_declare s d).mono fun _ => Error.Plain.local

theorem Pending.fails_settle {P : Error → Prop} {origin : String} (store : Store)
    (pending : Option Pending)
    (own : ∀ d n e, store.declare d = .error e → P (e.locate origin n)) :
    FailsAs P (settle origin store pending) := by
  cases pending with
  | none => exact failsAs_ok
  | some p =>
    rw [settle]
    cases declares : store.declare p.declaration with
    | ok grown => exact failsAs_ok
    | error e => exact failsAs_error.mpr (own p.declaration p.line e declares)

/-! ## Errors of a template -/

namespace Template

/-- `P` holds of every error of a line alone, and of every error about a file, and still does when
the error is placed in a file whose path is `Q`, as are all paths that are come to. -/
structure Covers (P : Error → Prop) (Q : String → Prop) : Prop where
  located : ∀ {origin}, Q origin → ∀ n e, P e → P (e.locate origin n)
  joined : ∀ {base}, Q base → ∀ target, Q (Path.join base target)
  written : ∀ place, Q (Place.written place)
  line : ∀ text fault, P (.badLine text fault)
  rules : ∀ kind text, FailsAs P (Rule.readFor kind text)
  heads : ∀ kind rest, FailsAs P (Declaration.read (Kind.sigil kind :: rest))
  declares : ∀ store d, FailsAs P (Store.declare store d)
  included : ∀ path fault, P (.notIncluded path fault)
  files : ∀ fault, P (.file fault)

/-- A line that declares starts with a sigil. -/
theorem head_of_read {raw text : List Char} (line : TemplateLine.read raw = .declaration text) :
    ∃ kind rest, text = Kind.sigil kind :: rest := by
  unfold TemplateLine.read at line
  dsimp only at line
  split at line
  · cases line
  · split at line
    · cases line
    · next c rest same =>
      split at line
      · cases line
      · split at line
        · cases line
        · split at line
          · next sigil =>
            obtain ⟨kind, known⟩ := Option.isSome_iff_exists.mp sigil
            cases line
            exact ⟨kind, rest, by rw [same, Kind.sigil_of_ofSigil? known]⟩
          · cases line

section
variable {P : Error → Prop} {Q : String → Prop}

mutual

theorem addFile_covered (covers : Covers P Q) {fs : Files} {chain : List Place} {path : String}
    {store : Store} (led : Q path) : FailsAs P (addFile fs chain path store) := by
  rw [addFile]
  split
  · exact failsAs_error.mpr (covers.included _ _)
  · split
    · exact failsAs_error.mpr (covers.included _ _)
    · split
      · exact failsAs_error.mpr (covers.files _)
      · exact addLines_covered covers led (covers.written _)
termination_by (unvisited (places fs) chain, 0)
decreasing_by
  exact Prod.Lex.left _ _ (unvisited_cons_lt (mem_places_of_textAt ‹_›) ‹_›)

theorem addLines_covered (covers : Covers P Q) {fs : Files} {chain : List Place}
    {origin base : String} {n : Nat} {raws : List (List Char)} {pending : Option Pending}
    {store : Store} (led : Q origin) (led' : Q base) :
    FailsAs P (addLines fs chain origin base n raws pending store) := by
  have settles : FailsAs P (Pending.settle origin store pending) :=
    Pending.fails_settle store pending fun d m e fails =>
      covers.located led m e (covers.declares store d e fails)
  have located {e : Error} (own : P e) : P (e.locate origin n) := covers.located led n e own
  match raws with
  | [] =>
    rw [addLines]
    exact settles
  | raw :: rest =>
    rw [addLines]
    split
    · exact addLines_covered covers led led'
    · next text line =>
      split
      · exact failsAs_error.mpr (located (covers.line _ _))
      · next p =>
        split
        · next e fails => exact failsAs_error.mpr (located (covers.rules _ _ e fails))
        · exact addLines_covered covers led led'
    · next target line =>
      split
      · next e fails => exact failsAs_error.mpr (settles e fails)
      · split
        · exact failsAs_error.mpr (located (covers.line _ _))
        · split
          · next e fails =>
            have inner := addFile_covered covers (covers.joined led' _) e fails
            exact failsAs_error.mpr (located inner)
          · exact addLines_covered covers led led'
    · next text line =>
      split
      · next e fails => exact failsAs_error.mpr (settles e fails)
      · split
        · next e fails =>
          obtain ⟨kind, after, rfl⟩ := head_of_read line
          exact failsAs_error.mpr (located (covers.heads kind after e fails))
        · exact addLines_covered covers led led'
    · next text line =>
      split
      · next e fails => exact failsAs_error.mpr (settles e fails)
      · exact failsAs_error.mpr (located (covers.line _ _))
termination_by (unvisited (places fs) chain, raws.length + 1)
decreasing_by
  all_goals exact Prod.Lex.right _ (by simp)

end

end
end Template

end Phrasebook
