import Mathlib.Algebra.GroupWithZero.Nat
import Phrasebook.Proofs.Faults
import Phrasebook.Proofs.Joining
import Phrasebook.Proofs.Siblings
import Phrasebook.Proofs.Trailing

/-!
# Comments and blank lines

What is added to a text without saying anything: lines that hold nothing, and comments behind
lines. Two runs go side by side, over the text and over the text with these in it.

* `covers_elsewhere`: no error of an included file is located in the text itself;
* `Gloss`: a line with what is added to it, and `Gloss.moved`: the line that it becomes;
* `addLines_follows`: what the second run comes to follows from what the first one does;
* `read_glossed`: so the text is read as before, and errors move with their lines.
-/

namespace Phrasebook

/-! ## Errors of included files -/

namespace Error

variable {e : Error} {origin origin' : String}

/-- It has no place in the text of that name. -/
def Elsewhere (origin : String) (e : Error) : Prop := ∀ n cause, e ≠ .atLine origin n cause

theorem Local.elsewhere (here : e.Local) : e.Elsewhere origin := by
  rintro n cause rfl
  exact here

theorem Elsewhere.locate (elsewhere : e.Elsewhere origin) (other : origin' ≠ origin) (n : Nat) :
    (e.locate origin' n).Elsewhere origin := by
  cases e with
  | atLine origin'' m cause => exact elsewhere
  | _ =>
    intro m cause same
    exact other (Error.atLine.inj same).1

end Error

/-- It starts at the root or at the current directory, and does so in writing. -/
def Path.Led (path : String) : Prop :=
  path.toList.head? = some '/' ∨ path.toList.head? = some '.'

namespace Path

variable {base path : String}

theorem led_append (led : Led base) (t : String) : Led (base ++ t) := by
  rw [Led, String.toList_append]
  cases whole : base.toList with
  | nil => simp [Led, whole] at led
  | cons c rest => simpa [Led, whole] using led

theorem led_join (led : Led base) (target : String) : Led (join base target) := by
  unfold join
  split
  · next h =>
    rcases (Bool.or_eq_true _ _).mp h with slash | none
    · exact .inl ((startsWith_slash target).mp slash)
    · obtain rfl := String.isEmpty_iff.mp none
      simp [Led] at led
  · split
    · exact led_append led target
    · exact led_append (led_append led "/") target

theorem led_written (place : Place) : Led place.written := .inl (by
  rw [Place.written, String.toList_append]
  rfl)

theorem Led.ne_inlineName (led : Led path) : path ≠ Template.inlineName := by
  rintro rfl
  rcases led with h | h <;> exact absurd h (by decide)

end Path

namespace Template

open Phrasebook.Path

/-- No error of a file that is included is located in the text that includes it. -/
theorem covers_elsewhere : Covers (Error.Elsewhere inlineName) Led where
  located led n _ elsewhere := elsewhere.locate led.ne_inlineName n
  joined := led_join
  written := led_written
  line _ _ := Error.Local.elsewhere trivial
  rules kind text := (Rule.fails_readFor kind text).mono fun _ => Error.Local.elsewhere
  heads _ _ := (Declaration.fails_read _).mono fun _ => Error.Local.elsewhere
  declares store d := (store.fails_declare d).mono fun _ => Error.Local.elsewhere
  included _ _ := nofun
  files _ := nofun

/-! ## Comments -/

end Template

namespace Text

variable {raw blanks : List Char}

/-- Blanks, or a comment with nothing but blanks before it. -/
def Idle (raw : List Char) : Prop :=
  ∃ blanks comment, allBlank blanks = true ∧ (comment = [] ∨ comment.head? = some ';') ∧
    raw = blanks ++ comment

theorem beforeComment_blanks (blank : allBlank blanks = true) (t : List Char) :
    beforeComment? (blanks ++ ';' :: t) = some blanks := by
  induction blanks with
  | nil => exact beforeComment_semicolon t
  | cons c rest ih =>
    obtain ⟨first, later⟩ : isBlank c = true ∧ allBlank rest = true := by
      simpa [allBlank] using blank
    obtain ⟨passes, plain, -⟩ := ne_of_isBlank first
    rw [List.cons_append, beforeComment_cons fun h => absurd h plain, if_neg passes, ih later]
    rfl

theorem trimEnd_prepare_idle (idle : Idle raw) : trimEnd (prepare raw) = [] := by
  obtain ⟨blanks, comment, blank, rfl | marked, rfl⟩ := idle
  · rw [List.append_nil]
    exact trimEnd_prepare_append_blanks blank []
  · obtain ⟨t, rfl⟩ := List.head?_eq_some_iff.mp marked
    rw [prepare, withoutComment, beforeComment_blanks blank]
    dsimp only
    rw [trimEnd_eq_nil.mpr blank]
    rfl

end Text

theorem TemplateLine.read_idle {raw : List Char} (idle : Text.Idle raw) : read raw = .blank := by
  have trimmed := trimmed_read_eq raw
  rw [Text.trimEnd_prepare_idle idle, ofTrimmed] at trimmed
  cases line : read raw with
  | blank => rfl
  | _ =>
    rw [line] at trimmed
    cases trimmed

/-- A line with what is added to it: lines above it that hold nothing, and a comment behind it. -/
structure Gloss where
  above : List (List Char)
  line : List Char
  behind : List Char
  idle : ∀ raw ∈ above, Text.Idle raw
  aside : Text.Aside behind

namespace Gloss

def written (g : Gloss) : List (List Char) := g.above ++ [g.line ++ g.behind]

/-- How many lines were added above. -/
def added (glosses : List Gloss) : Nat := (glosses.map (·.above.length)).sum

/-- Where a line has moved to. -/
def moved (glosses : List Gloss) (n : Nat) : Nat := n + added (glosses.take n)

/-- Below the lines before it, a line has those that were added above it before it. -/
theorem moved_step {glosses front rest : List Gloss} {g : Gloss}
    (whole : glosses = front ++ g :: rest) :
    front.length + 1 + added front + g.above.length = moved glosses (front.length + 1) ∧
      (front ++ [g]).length + 1 + added (front ++ [g]) = moved glosses (front.length + 1) + 1 := by
  have sum : added (front ++ [g]) = added front + g.above.length := by simp [added]
  have first : glosses.take (front.length + 1) = front ++ [g] := by
    rw [whole, List.take_append, List.take_of_length_le (Nat.le_succ _)]
    simp
  rw [moved, first, sum, List.length_append, List.length_singleton]
  omega

theorem alike (g : Gloss) :
    TemplateLine.Alike (TemplateLine.read (g.line ++ g.behind)) (TemplateLine.read g.line) :=
  TemplateLine.alike_read (Text.trimEnd_prepare_append_aside g.aside g.line)

end Gloss

namespace Error

/-- The error at the line that its line has moved to. -/
def moved (move : Nat → Nat) : Error → Error
  | atLine origin n cause =>
    atLine origin (if origin = Template.inlineName then move n else n) cause
  | e => e

theorem moved_locate {e : Error} (elsewhere : e.Elsewhere Template.inlineName) (move : Nat → Nat)
    (n : Nat) :
    (e.locate Template.inlineName n).moved move = e.locate Template.inlineName (move n) := by
  cases e with
  | atLine origin m cause =>
    have other : origin ≠ Template.inlineName := by
      rintro rfl
      exact elsewhere m cause rfl
    rw [locate, locate, moved, if_neg other]
  | _ => rfl

end Error

/-- The declaration at the line that its line has moved to. -/
def Pending.moved (move : Nat → Nat) (p : Pending) : Pending := { p with line := move p.line }

namespace Template

variable {fs : Files} {chain : List Place} {origin base : String} {n m : Nat}
  {raws above below : List (List Char)} {pending : Option Pending} {store grown : Store}
  {glosses front rest : List Gloss} {move : Nat → Nat} {α : Type} {x x' : Outcome α} {e e' : Error}

/-- The outcome with errors at the lines that theirs have moved to, whatever they quote. -/
def Follows (move : Nat → Nat) (x' x : Outcome α) : Prop :=
  x'.mapError Error.unquoted = x.mapError fun e => (e.moved move).unquoted

theorem follows_locate (elsewhere : e.Elsewhere inlineName) (same : e'.unquoted = e.unquoted) :
    Follows move (.error (e'.locate inlineName (move n)) : Outcome α)
      (.error (e.locate inlineName n)) := by
  refine congrArg Except.error ?_
  dsimp only
  rw [Error.moved_locate elsewhere, Error.unquoted_locate, Error.unquoted_locate, same]

theorem Follows.both (follows : Follows move x' x) : (∃ a, x' = .ok a ∧ x = .ok a) ∨
    ∃ e' e, x' = .error e' ∧ x = .error e ∧ e'.unquoted = (e.moved move).unquoted := by
  cases x' with
  | error e' =>
    cases x with
    | error e => exact .inr ⟨e', e, rfl, rfl, Except.error.inj follows⟩
    | ok a => cases follows
  | ok a' =>
    cases x with
    | error e => cases follows
    | ok a => exact .inl ⟨a', rfl, congrArg Except.ok (Except.ok.inj follows).symm⟩

theorem addLines_idle (idle : ∀ raw ∈ above, Text.Idle raw) :
    addLines fs chain origin base n (above ++ raws) pending store =
      addLines fs chain origin base (n + above.length) raws pending store := by
  induction above generalizing n with
  | nil => rfl
  | cons raw above ih =>
    rw [List.cons_append, addLines_blank (TemplateLine.read_idle (idle raw (.head _))),
      ih fun raw there => idle raw (.tail _ there), List.length_cons, Nat.add_right_comm,
      Nat.add_assoc]

theorem settle_follows (move : Nat → Nat) (pending : Option Pending) (store : Store) :
    Follows move (Pending.settle inlineName store (pending.map (·.moved move)))
      (Pending.settle inlineName store pending) := by
  cases pending with
  | none => rfl
  | some p =>
    rw [Option.map_some, Pending.settle, Pending.settle, Pending.moved]
    cases declares : store.declare p.declaration with
    | ok grown => rfl
    | error e => exact follows_locate (Store.fails_declare _ _ e declares).elsewhere rfl

theorem addLines_follows (led : Path.Led base) (idle : ∀ raw ∈ below, Text.Idle raw)
    (front : List Gloss) (whole : glosses = front ++ rest) (pending : Option Pending)
    (store : Store) :
    Follows (Gloss.moved glosses)
      (addLines fs chain inlineName base (front.length + 1 + Gloss.added front)
        (rest.flatMap Gloss.written ++ below) (pending.map (·.moved (Gloss.moved glosses))) store)
      (addLines fs chain inlineName base (front.length + 1) (rest.map (·.line)) pending store) := by
  induction rest generalizing front pending store with
  | nil =>
    rw [List.flatMap_nil, List.nil_append, ← List.append_nil below, addLines_idle idle,
      List.map_nil, addLines, addLines]
    exact settle_follows _ pending store
  | cons g rest ih =>
    obtain ⟨here, next⟩ := Gloss.moved_step whole
    have later : glosses = (front ++ [g]) ++ rest := by
      rw [whole, List.append_assoc, List.singleton_append]
    have ih := ih (front ++ [g]) later
    rw [next, List.length_append, List.length_singleton] at ih
    have settles := settle_follows (Gloss.moved glosses) pending store
    rw [List.flatMap_cons, Gloss.written, List.append_assoc, List.append_assoc,
      addLines_idle g.idle, here, List.singleton_append, List.map_cons, addLines, addLines]
    have alike := g.alike
    generalize TemplateLine.read (g.line ++ g.behind) = line', TemplateLine.read g.line = line
      at alike
    cases alike with
    | blank => exact ih pending store
    | rule text =>
      cases pending with
      | none => exact follows_locate (Error.Local.elsewhere trivial) rfl
      | some p =>
        dsimp only [Option.map]
        rw [Pending.moved]
        cases reads : Rule.readFor p.declaration.kind (.ofList text) with
        | error e => exact follows_locate (Rule.fails_readFor _ _ e reads).elsewhere rfl
        | ok r => exact ih (some (p.addRule r)) store
    | inclusion target =>
      dsimp only
      rcases settles.both with ⟨settled, new, old⟩ | ⟨e', e, new, old, same⟩
      · rw [new, old]
        dsimp only
        split
        · exact follows_locate (Error.Local.elsewhere trivial) rfl
        · cases adds : addFile fs chain (Path.join base (.ofList target)) settled with
          | error e =>
            have elsewhere := addFile_covered covers_elsewhere (Path.led_join led _) e adds
            exact follows_locate elsewhere rfl
          | ok included => exact ih none included
      · rw [new, old]
        exact congrArg Except.error same
    | @declaration text' text same =>
      dsimp only
      rcases settles.both with ⟨settled, new, old⟩ | ⟨e', e, new, old, same⟩
      · rw [new, old]
        dsimp only
        have reads := Declaration.read_alike same
        cases there : Declaration.read text with
        | error e =>
          cases there' : Declaration.read text' with
          | error e' =>
            rw [there, there'] at reads
            exact follows_locate (Declaration.fails_read _ e there).elsewhere
              (Except.error.inj reads)
          | ok d =>
            rw [there, there'] at reads
            cases reads
        | ok d =>
          rw [there] at reads
          rw [mapError_eq_ok.mp reads]
          exact ih (some ⟨d, _⟩) settled
      · rw [new, old]
        exact congrArg Except.error same
    | unknown text' text =>
      dsimp only
      rcases settles.both with ⟨settled, new, old⟩ | ⟨e', e, new, old, same⟩
      · rw [new, old]
        exact follows_locate (Error.Local.elsewhere trivial) rfl
      · rw [new, old]
        exact congrArg Except.error same

/-- **Comments and blank lines do nothing.** A text with lines that hold nothing above its lines and
below them, and with comments behind its lines, is read as before. An error is the same one, at the
line that its line has moved to. -/
theorem read_glossed {fs : Files} {s t : String} {glosses : List Gloss} {below : List (List Char)}
    (plain : Text.lines s.toList = glosses.map (·.line))
    (glossed : Text.lines t.toList = glosses.flatMap Gloss.written ++ below)
    (idle : ∀ raw ∈ below, Text.Idle raw) :
    (∀ store, read fs s = .ok store → read fs t = .ok store) ∧
    ∀ n cause, read fs s = .error (.atLine inlineName n cause) →
      ∃ cause', read fs t = .error (.atLine inlineName (Gloss.moved glosses n) cause') ∧
        cause'.root.unquoted = cause.root.unquoted := by
  have follows : Follows (Gloss.moved glosses) (read fs t) (read fs s) := by
    rw [read, read, plain, glossed]
    exact addLines_follows (.inr rfl) idle [] rfl none ∅
  constructor
  · intro store reads
    rw [reads] at follows
    exact mapError_eq_ok.mp follows
  · intro n cause fails
    rw [fails] at follows
    rcases follows.both with ⟨a, -, old⟩ | ⟨e', e, new, old, same⟩
    · cases old
    · cases old
      rw [Error.moved, if_pos rfl, Error.unquoted] at same
      cases e' with
      | atLine origin m cause' =>
        obtain ⟨rfl, rfl, alike⟩ := Error.atLine.inj same
        exact ⟨cause', new, by rw [← Error.root_unquoted, alike, Error.root_unquoted]⟩
      | _ => cases same

theorem read_glossed_greeting : ∃ cause : Error,
    read {} "~[hi]\n  hello\nbye\n" = .error (.atLine inlineName 3 (.badLine "bye" .unknownLine)) ∧
      read {} "; greetings\n~[hi] ; often\n\n  hello\nbye ; at last\n  ;\n" =
        .error (.atLine inlineName 5 cause) ∧ cause.root.unquoted = .badLine "" .unknownLine := by
  let glosses : List Gloss := [
    ⟨["; greetings".toList], "~[hi]".toList, " ; often".toList,
      List.forall_mem_singleton.mpr ⟨[], "; greetings".toList, rfl, .inr rfl, rfl⟩,
      .inr ⟨[], ' ', " often".toList, rfl, rfl, rfl⟩⟩,
    ⟨[[]], "  hello".toList, [],
      List.forall_mem_singleton.mpr ⟨[], [], rfl, .inl rfl, rfl⟩, .inl rfl⟩,
    ⟨[], "bye".toList, " ; at last".toList, nofun,
      .inr ⟨[], ' ', " at last".toList, rfl, rfl, rfl⟩⟩]
  have fails : read {} "~[hi]\n  hello\nbye\n" =
    .error (.atLine inlineName 3 (.badLine "bye" .unknownLine)) := by cbv
  have plain : Text.lines "~[hi]\n  hello\nbye\n".toList = glosses.map (·.line) := by cbv
  have glossed :
      Text.lines "; greetings\n~[hi] ; often\n\n  hello\nbye ; at last\n  ;\n".toList =
        glosses.flatMap Gloss.written ++ ["  ;".toList] := by cbv
  have idle : ∀ raw ∈ ["  ;".toList], Text.Idle raw :=
    List.forall_mem_singleton.mpr ⟨"  ".toList, ";".toList, rfl, .inr rfl, rfl⟩
  obtain ⟨cause, fails', same⟩ := (read_glossed plain glossed idle).2 3 _ fails
  exact ⟨cause, fails, fails', same⟩

end Template
end Phrasebook
