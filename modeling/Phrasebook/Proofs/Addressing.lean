import Mathlib
import Phrasebook.Proofs.Cutting
import Phrasebook.Proofs.Letters
import Phrasebook.Shell.Session

/-!
# Asking a session for an intent

A command line is cut at the blanks outside of quotes, and a token keeps its quotes. A command to
generate takes its token for the name as it is, so it can ask for the names that are tokens, and for
no others.

* `Shell.tokens_pair`: two texts that are not cut are the tokens of a line, if the first closes its
  quotes;
* `Command.read_generate`, `CommandLine.mem_tokens`: where the name of a command comes from;
* `Session.Asks`, `Session.asks_iff`: the names that a line can ask for.

Mathlib is imported whole: the templates that are read at the end are evaluated with equations from
all over it.
-/

namespace Phrasebook

open Text

namespace Shell

/-- Two texts that are not cut are the tokens of a line, if no quote is open between them. -/
theorem tokens_pair {first second : String} (filled : first ≠ "" ∧ second ≠ "")
    (joined : Joined first.toList ∧ Joined second.toList)
    (closed : inQuotes first.toList = false) :
    tokens (first ++ " " ++ second) = [first, second] := by
  have filled : first.toList ≠ [] ∧ second.toList ≠ [] := by simpa using filled
  have last : CutInto second.toList [second.toList] := .last filled.2 joined.2
  have both := CutInto.token filled.1 joined.1 closed (c := ' ') rfl last
  rw [tokens_eq_iff]
  simpa using both

end Shell

/-! ## Commands -/

theorem CommandLine.mem_tokens {line t : String} {parsed : CommandLine}
    (read : CommandLine.read line = .ok parsed) (mem : t ∈ parsed.tokens) :
    t ∈ Shell.tokens line := by
  unfold CommandLine.read at read
  dsimp only at read
  split at read
  · cases read
    exact mem
  · cases read
  · next arrow target after rest =>
    cases read
    rcases List.mem_append.mp mem with before | behind
    · exact (List.takeWhile_prefix _).subset before
    · have later : t ∈ arrow :: target :: after := by simp [behind]
      exact List.mem_of_mem_drop (rest ▸ later)

theorem CommandLine.read_undirected {line : String} (plain : ">" ∉ Shell.tokens line) :
    CommandLine.read line = .ok ⟨Shell.tokens line, none⟩ := by
  have all : (Shell.tokens line).takeWhile (· ≠ ">") = Shell.tokens line := by
    apply List.takeWhile_eq_self_iff.mpr
    intro t ht
    exact decide_eq_true fun same => plain (same ▸ ht)
  rw [CommandLine.read, all, List.drop_length]

namespace Command

theorem takeVariation_eq_nil {arguments : List String} :
    takeVariation arguments = (none, []) ↔ arguments = [] := by
  cases arguments with
  | nil => simp [takeVariation]
  | cons token rest =>
    simp only [takeVariation]
    split <;> simp

theorem readGenerate_bare {line name : String} {arguments : List String} :
    readGenerate line arguments = .ok (.generate name none none) ↔ arguments = [name] := by
  constructor
  · intro asked
    unfold readGenerate at asked
    split at asked
    · cases asked
    · next intent rest =>
      split at asked
      · next variation bare =>
        cases asked
        rw [takeVariation_eq_nil.mp bare]
      · obtain ⟨count, -, same⟩ := bind_eq_ok.mp asked
        cases same
      · cases asked
  · rintro rfl
    rfl

/-- A line asks for what the declarations of an intent ask for just when it names the intent and
says no more. -/
theorem read_generate {line name : String} {tokens : List String} :
    read line tokens = .ok (some (.generate name none none)) ↔ tokens = ["generate", name] := by
  constructor
  · intro asked
    unfold read at asked
    split at asked
    · cases asked
    · obtain ⟨c, reads, same⟩ := map_eq_ok.mp asked
      cases same
      split at reads
      · cases reads
      · cases reads
      · unfold readShow at reads
        split at reads
        · split at reads <;> cases reads
        · cases reads
      · rw [readGenerate_bare.mp reads]
      · unfold readRule at reads
        split at reads
        · cases reads
        · obtain ⟨count, -, same⟩ := bind_eq_ok.mp reads
          cases same
        · cases reads
      · cases reads
  · rintro rfl
    rfl

end Command

/-! ## Sessions -/

namespace Session

/-- A line that asks for an intent, as its declarations ask for it. -/
def Asks (line name : String) : Prop :=
  ∃ parsed, CommandLine.read line = .ok parsed ∧
    Command.read line parsed.tokens = .ok (some (.generate name none none))

variable {name line : String}

/-- What a session answers to such a line, and what is left of its words. -/
theorem answer_asks (asks : Asks line name) (s : Session) : ∃ file, s.answer line =
    ((s.generator.generate name none s.words).1.map fun examples =>
        { text := listing examples, file },
      { s with words := (s.generator.generate name none s.words).2 }) := by
  obtain ⟨parsed, read, asked⟩ := asks
  refine ⟨parsed.redirection, ?_⟩
  rw [answer, read]
  dsimp only
  rw [asked]
  simp only [run, produce]
  cases (s.generator.generate name none s.words).1 <;> rfl

theorem asks_joined (asks : Asks line name) : Shell.Joined name.toList := by
  obtain ⟨parsed, read, asked⟩ := asks
  have named : name ∈ parsed.tokens := by
    rw [Command.read_generate.mp asked]
    simp
  exact (Shell.joined_of_mem_tokens (CommandLine.mem_tokens read named)).2

/-- The name `>` can be asked for where the line redirects before it. -/
theorem asks_arrow : Asks "generate > f >" ">" := by
  have read : CommandLine.read "generate > f >" = .ok ⟨["generate", ">"], some "f"⟩ := by cbv
  exact ⟨_, read, rfl⟩

theorem exists_asks (filled : name ≠ "") (joined : Shell.Joined name.toList) :
    ∃ line, Asks line name := by
  by_cases arrow : name = ">"
  · exact ⟨_, arrow ▸ asks_arrow⟩
  · have unquoted : '"' ∉ "generate".toList := by decide
    have visible : "generate".toList.all fun c => !isBlank c := by decide
    have word : Shell.Joined "generate".toList := by
      apply (Shell.joined_iff unquoted).mpr
      simpa only [List.all_eq_true, Bool.not_eq_true'] using visible
    have tokens : Shell.tokens ("generate" ++ " " ++ name) = ["generate", name] :=
      Shell.tokens_pair ⟨by decide, filled⟩ ⟨word, joined⟩ (Shell.inQuotes_of_unquoted unquoted)
    have plain : ">" ∉ Shell.tokens ("generate" ++ " " ++ name) := by
      rw [tokens]
      simpa [eq_comm] using arrow
    exact ⟨_, _, CommandLine.read_undirected plain, Command.read_generate.mpr tokens⟩

/-- **The intents that a session can be asked for.** Of the intents that a template declares, these
are the ones with every blank of their names in quotes: without quotes in it, a name may have no
blank. On every line that asks for one, the session makes just what the declarations ask for, with
the words that it has, and goes on with those that are left. -/
theorem asks_iff {fs : Files} {text : String} {store : Store} {d : Definition}
    (read : Template.read fs text = .ok store) (declared : store.find? .intent name = some d) :
    ((∃ line, Asks line name) ↔ Shell.Joined name.toList) ∧
    ('"' ∉ name.toList → ((∃ line, Asks line name) ↔ ∀ c ∈ name.toList, isBlank c = false)) ∧
    ∀ line, Asks line name → ∀ s : Session, ∃ file, s.answer line =
      ((s.generator.generate name none s.words).1.map fun examples =>
          { text := listing examples, file },
        { s with words := (s.generator.generate name none s.words).2 }) := by
  have filled : name ≠ "" := by
    rintro rfl
    cases ((Store.lined_of_declares (Template.read_declares read)) _ _ _ declared).named
  have tokens : (∃ line, Asks line name) ↔ Shell.Joined name.toList := by
    constructor
    · rintro ⟨line, asks⟩
      exact asks_joined asks
    · exact exists_asks filled
  exact ⟨tokens, fun unquoted => tokens.trans (Shell.joined_iff unquoted),
    fun line asks => answer_asks asks⟩

/-- The sign that redirects is a name like others. -/
theorem asks_iff_arrow : ∃ (store : Store) (d : Definition),
    Template.read {} "%[>](1)\n  next\n" = .ok store ∧ store.find? .intent ">" = some d ∧
      '"' ∉ ">".toList ∧ Asks "generate > f >" ">" ∧
      (∀ c ∈ ">".toList, isBlank c = false) ∧
      ∀ s : Session, ∃ file, s.answer "generate > f >" =
        ((s.generator.generate ">" none s.words).1.map fun examples =>
            { text := listing examples, file },
          { s with words := (s.generator.generate ">" none s.words).2 }) := by
  let v : Variation := ⟨none, some 1, [⟨[.word "next"], none⟩]⟩
  let d : Definition := ⟨">", .intent, false, [v]⟩
  let store : Store := ⟨∅, ∅, ⟨[(">", d)], by decide⟩⟩
  have read : Template.read {} "%[>](1)\n  next\n" = .ok store := by cbv
  have declared : store.find? .intent ">" = some d := by rfl
  have unquoted : '"' ∉ ">".toList := by decide
  obtain ⟨-, plain, answers⟩ := asks_iff read declared
  exact ⟨store, d, read, declared, unquoted, asks_arrow, (plain unquoted).mp ⟨_, asks_arrow⟩,
    answers _ asks_arrow⟩

/-- No line asks for a name of two words. In quotes it is another name, which is not declared. -/
theorem spaced_name_unheard : ∃ (store : Store) (d : Definition),
    Template.read {} "%[good morning](1)\n  hello\n" = .ok store ∧
      store.find? .intent "good morning" = some d ∧ '"' ∉ "good morning".toList ∧
      (∀ line, ¬ Asks line "good morning") ∧
      ∀ s : Session, s.generator.store = store → s.answer "generate \"good morning\"" =
        (.error (.undeclared .intent "\"good morning\""), s) := by
  let v : Variation := ⟨none, some 1, [⟨[.word "hello"], none⟩]⟩
  let d : Definition := ⟨"good morning", .intent, false, [v]⟩
  let store : Store := ⟨∅, ∅, ⟨[("good morning", d)], by decide⟩⟩
  have read : Template.read {} "%[good morning](1)\n  hello\n" = .ok store := by cbv
  have declared : store.find? .intent "good morning" = some d := by rfl
  have letters : "good morning".toList =
    ['g', 'o', 'o', 'd', ' ', 'm', 'o', 'r', 'n', 'i', 'n', 'g'] := rfl
  have unquoted : '"' ∉ "good morning".toList := by
    rw [letters]
    decide
  refine ⟨store, d, read, declared, unquoted, fun line asks => ?_, fun s same => ?_⟩
  · have visible := (Shell.joined_iff unquoted).mp (asks_joined asks)
    cases visible ' ' (by rw [letters]; decide)
  · have quoted : Asks "generate \"good morning\"" "\"good morning\"" :=
      ⟨⟨["generate", "\"good morning\""], none⟩, by cbv, rfl⟩
    obtain ⟨file, answered⟩ := answer_asks quoted s
    have absent : s.generator.generate "\"good morning\"" none s.words =
        (.error (.undeclared .intent "\"good morning\""), s.words) := by
      have unknown : store.find? .intent "\"good morning\"" = none := by rfl
      rw [Generator.generate, Generator.selected, same, Store.get, unknown]
      rfl
    rw [answered, absent]
    rfl

end Session

end Phrasebook
