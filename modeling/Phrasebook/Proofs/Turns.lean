import Mathlib
import Phrasebook.Proofs.Outcome
import Phrasebook.Shell.Session
import Phrasebook.Template

/-!
# Lines that a session can do without

A session has one source of random words for all its lines. Lines that only tell something take none
of them, so the others are answered as if these had not been there.

* `Command.draws`: the commands that take words;
* `Session.Spare`: lines that ask for none of these, and redirect nothing;
* `Session.turn_spare`: the session and the files after such a line are those before it;
* `Session.turn_generator`: no line changes the store or the settings;
* `Session.turns`, `turns_kept`: a run of lines, and the run without some of the spare ones.

Mathlib is imported whole: the runs at the end are evaluated with equations from all over it.
-/

namespace Phrasebook

/-- Whether a command makes utterances. -/
def Command.draws : Command → Bool
  | .generate _ _ _ => true
  | .rule _ _ => true
  | _ => false

theorem Reply.deliver_unsent {r : Reply} (unsent : r.file = none) (fs : Files) :
    (r.deliver fs).2 = fs := by
  unfold deliver
  cases r.text with
  | none => rfl
  | some text => rw [unsent]

namespace Session

/-! ## One line -/

/-- Lines that say nothing, or nothing that is understood, or that ask for what takes no words; and
do not redirect it. -/
inductive Spare (line : String) : Prop
  | unread {e} (read : CommandLine.read line = .error e) : Spare line
  | misused {tokens e} (read : CommandLine.read line = .ok ⟨tokens, none⟩)
      (misused : Command.read line tokens = .error e) : Spare line
  | blank {tokens} (read : CommandLine.read line = .ok ⟨tokens, none⟩)
      (blank : Command.read line tokens = .ok none) : Spare line
  | told {tokens c} (read : CommandLine.read line = .ok ⟨tokens, none⟩)
      (asked : Command.read line tokens = .ok (some c)) (tells : c.draws = false) : Spare line

variable {s : Session} {fs : Files} {line : String}

theorem turn_session : (s.turn fs line).session = (s.answer line).2 := by
  unfold turn
  split
  · next answered => rw [answered]
  · next answered => rw [answered]
  · next answered =>
    rw [answered]
    split <;> rfl

theorem turn_of_answer {outcome : Outcome Reply} {next : Session}
    (answered : s.answer line = (.of outcome, next))
    (unsent : ∀ r, outcome = .ok r → r.file = none) :
    (s.turn fs line).files = fs ∧ (s.turn fs line).outcome ≠ .overflow := by
  rw [turn, answered]
  cases outcome with
  | error e => exact ⟨rfl, nofun⟩
  | ok r =>
    dsimp only [Answer.of]
    have kept := r.deliver_unsent (unsent r rfl) fs
    cases delivered : r.deliver fs with
    | mk sent after =>
      rw [delivered] at kept
      cases sent with
      | error e => exact ⟨kept, nofun⟩
      | ok printed => exact ⟨kept, nofun⟩

/-- A command that only tells something leaves the session as it is, and tells it to no file. -/
theorem run_tells {c : Command} (tells : c.draws = false) : ∃ outcome,
    s.run c none = (.of outcome, s) ∧ ∀ r, outcome = .ok r → r.file = none := by
  cases c with
  | exit => exact ⟨.ok _, rfl, fun r h => by cases h; rfl⟩
  | stats => exact ⟨.ok _, rfl, fun r h => by cases h; rfl⟩
  | showDefinition kind name =>
    refine ⟨_, rfl, fun r h => ?_⟩
    obtain ⟨d, _, rfl⟩ := map_eq_ok.mp h
    rfl
  | generate => cases tells
  | rule => cases tells
  | unknown name => exact ⟨.ok _, rfl, fun r h => by cases h; rfl⟩

theorem answer_spare (spare : Spare line) (s : Session) : ∃ outcome,
    s.answer line = (.of outcome, s) ∧ ∀ r, outcome = .ok r → r.file = none := by
  unfold answer
  cases spare with
  | unread read =>
    rw [read]
    exact ⟨.error _, rfl, nofun⟩
  | misused read misused =>
    rw [read]
    dsimp only
    rw [misused]
    exact ⟨.error _, rfl, nofun⟩
  | blank read blank =>
    rw [read]
    dsimp only
    rw [blank]
    exact ⟨.ok _, rfl, fun r h => by cases h; rfl⟩
  | told read asked tells =>
    rw [read]
    dsimp only
    rw [asked]
    exact run_tells tells

/-- A spare line leaves everything as it is, and the program goes on. -/
theorem turn_spare (spare : Spare line) (s : Session) (fs : Files) :
    (s.turn fs line).session = s ∧ (s.turn fs line).files = fs ∧
      (s.turn fs line).outcome ≠ .overflow := by
  obtain ⟨outcome, answered, unsent⟩ := answer_spare spare s
  exact ⟨turn_session.trans (congrArg Prod.snd answered), turn_of_answer answered unsent⟩

theorem run_generator (s : Session) (c : Command) (file : Option String) :
    (s.run c file).2.generator = s.generator := by
  cases c with
  | rule text count =>
    unfold run
    dsimp only
    split <;> rfl
  | _ => rfl

theorem turn_generator (s : Session) (fs : Files) (line : String) :
    (s.turn fs line).session.generator = s.generator := by
  rw [turn_session]
  unfold answer
  split
  · rfl
  · split
    · rfl
    · rfl
    · exact s.run_generator _ _

/-! ## A run of lines -/

/-- The turns of lines one after the other, also behind one that ends the session, but none behind
one that stops the program. -/
def turns (s : Session) (fs : Files) : List String → List Turn
  | [] => []
  | line :: rest =>
    let turn := s.turn fs line
    turn ::
      match turn.outcome with
      | .overflow => []
      | _ => turn.session.turns turn.files rest

theorem turns_cons {line : String} {rest : List String}
    (goes : (s.turn fs line).outcome ≠ .overflow) : s.turns fs (line :: rest) =
      s.turn fs line :: (s.turn fs line).session.turns (s.turn fs line).files rest := by
  rw [turns]
  split
  · next stops => exact absurd stops goes
  · rfl

theorem turns_cons_stopped {line : String} {rest : List String}
    (stops : (s.turn fs line).outcome = .overflow) :
    s.turns fs (line :: rest) = [s.turn fs line] := by
  rw [turns, stops]

theorem turns_generator (s : Session) (fs : Files) (lines : List String) :
    ∀ turn ∈ s.turns fs lines, turn.session.generator = s.generator := by
  induction lines generalizing s fs with
  | nil => exact nofun
  | cons line rest ih =>
    intro turn there
    by_cases stops : (s.turn fs line).outcome = .overflow
    · rw [turns_cons_stopped stops] at there
      exact List.mem_singleton.mp there ▸ s.turn_generator fs line
    · rw [turns_cons stops] at there
      obtain rfl | later := List.mem_cons.mp there
      · exact s.turn_generator fs line
      · exact (ih _ _ turn later).trans (s.turn_generator fs line)

/-- What is marked to stay. -/
def kept {α : Type} : List Bool → List α → List α
  | true :: marks, a :: rest => a :: kept marks rest
  | false :: marks, _ :: rest => kept marks rest
  | _, _ => []

theorem kept_nil {α : Type} (marks : List Bool) : kept marks ([] : List α) = [] := by
  rcases marks with _ | ⟨_ | _, marks⟩ <;> rfl

/-- **Spare lines can be left out.** Whichever of them are, every line that stays has the turn that
it has among all the lines: the same outcome, the same text printed or added to its file, and the
same words left for the next one. Through all of it the store and the settings stay as they are. -/
theorem turns_kept (s : Session) (fs : Files) (marks : List Bool) (lines : List String)
    (spare : ∀ line ∈ kept (marks.map not) lines, Spare line) :
    kept marks (s.turns fs lines) = s.turns fs (kept marks lines) ∧
      ∀ turn ∈ s.turns fs lines, turn.session.generator = s.generator := by
  refine ⟨?_, s.turns_generator fs lines⟩
  induction marks generalizing s fs lines with
  | nil => simp only [kept, turns]
  | cons mark marks ih =>
    cases lines with
    | nil => cases mark <;> rfl
    | cons line rest =>
      cases mark with
      | true =>
        by_cases stops : (s.turn fs line).outcome = .overflow
        · rw [kept, turns_cons_stopped stops, turns_cons_stopped stops, kept, kept_nil]
        · rw [kept, turns_cons stops, turns_cons stops, kept]
          exact congrArg _ (ih _ _ rest spare)
      | false =>
        obtain ⟨session, files, goes⟩ := turn_spare (spare line List.mem_cons_self) s fs
        have others := ih s fs rest fun line there => spare line (List.mem_cons_of_mem _ there)
        rw [kept, turns_cons goes, session, files, kept]
        exact others

/-- Between two lines that generate there is one of each kind of spare lines. The second greeting is
another one than the first, and it is the same with them as without them. -/
theorem turns_kept_greeting : ∃ (s : Session) (lines : List String) (marks : List Bool),
    Template.read {} "%[hi](1)\n  hello\n  hey\n" = .ok s.generator.store ∧
      lines = ["generate hi", "stats", "rule", " ", "dance", "stats >", "exit", "generate hi"] ∧
      marks = [true, false, false, false, false, false, false, true] ∧
      (∀ line ∈ kept (marks.map not) lines, Spare line) ∧
      kept marks (s.turns {} lines) = s.turns {} ["generate hi", "generate hi"] ∧
      (kept marks (s.turns {} lines)).map (·.printed) = ["hello\n", "hey\n"] := by
  let v : Variation := ⟨none, some 1, [⟨[.word "hello"], none⟩, ⟨[.word "hey"], none⟩]⟩
  let store : Store := ⟨∅, ∅, ⟨[("hi", ⟨"hi", .intent, false, [v]⟩)], by decide⟩⟩
  let s : Session := ⟨⟨store, {}⟩, ⟨fun i => if i = 0 then 0 else 0xffffffff, 0⟩⟩
  have loaded : Template.read {} "%[hi](1)\n  hello\n  hey\n" = .ok store := by cbv
  let spared := ["stats", "rule", " ", "dance", "stats >", "exit"]
  let lines := "generate hi" :: spared ++ ["generate hi"]
  let marks := [true, false, false, false, false, false, false, true]
  have spare : ∀ line ∈ spared, Spare line := by
    simp only [spared, List.forall_mem_cons, List.not_mem_nil, false_imp_iff, implies_true,
      and_true]
    have stats : CommandLine.read "stats" = .ok ⟨["stats"], none⟩ := by cbv
    have rule : CommandLine.read "rule" = .ok ⟨["rule"], none⟩ := by cbv
    have blank : CommandLine.read " " = .ok ⟨[], none⟩ := by cbv
    have dance : CommandLine.read "dance" = .ok ⟨["dance"], none⟩ := by cbv
    have redirected : CommandLine.read "stats >" =
        .error (.badLine "stats >" .missingRedirection) := by cbv
    have exit : CommandLine.read "exit" = .ok ⟨["exit"], none⟩ := by cbv
    exact ⟨.told stats (c := .stats) rfl rfl, .misused rule rfl, .blank blank rfl,
      .told dance (c := .unknown "dance") rfl rfl, .unread redirected,
      .told exit (c := .exit) rfl rfl⟩
  have same := (turns_kept s {} marks lines spare).1
  have printed : (s.turns {} ["generate hi", "generate hi"]).map (·.printed) =
      ["hello\n", "hey\n"] := by cbv
  exact ⟨s, lines, marks, loaded, rfl, rfl, spare, same, same ▸ printed⟩

end Session

end Phrasebook
