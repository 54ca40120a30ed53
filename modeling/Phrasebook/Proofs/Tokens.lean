import Phrasebook.Proofs.Letters
import Phrasebook.Proofs.Levels
import Phrasebook.Proofs.Nesting

/-!
# Blocks that are cut out of a text

A rule is cut into words and blocks, and the bodies of groups are cut in turn. Whatever the text,
the brackets of what is cut out are in order, so that only the brackets of the text itself can be
out of order, and no text leads to a misuse of the library.

* `Cut`: the blocks that are cut out, at any depth;
* `readPieces_fails`: what reading a text fails for, and `Rule.read_eq_badLine`: when it has nothing
  to read;
* `Error.Proper`: no error of a template is a misuse of the library;
* `brackets_agree`: blocks are cut out just as they are read.
-/

namespace Phrasebook

open Text

/-! ## Cutting -/

/-- A block that is cut out of a text, of the body of a group in it, or of the body of a group in
that one, and so on. What else is the matter with the blocks before it makes no difference. -/
inductive Cut : List Char → List Char → Prop
  | escaped {c rest token} (later : Cut rest token) : Cut ('\\' :: c :: rest) token
  | passed {c rest token} (alone : c = '\\' → rest = []) (closed : opening? (c :: rest) = none)
      (later : Cut rest token) : Cut (c :: rest) token
  | here {s marks inside inner after} (opens : opening? s = some (marks, inside))
      (closes : throughClosing? 0 inside = some (inner, after)) : Cut s (marks ++ inner)
  | within {s marks inside inner after b token} (opens : opening? s = some (marks, inside))
      (closes : throughClosing? 0 inside = some (inner, after))
      (block : Block.read (marks ++ inner) = .ok b) (grouped : b.kind = none)
      (body : Cut b.name.toList token) : Cut s token
  | behind {s marks inside inner after token} (opens : opening? s = some (marks, inside))
      (closes : throughClosing? 0 inside = some (inner, after)) (later : Cut after token) :
      Cut s token

variable {s rest inside inner after token marks word : List Char} {c : Char} {pieces : List Piece}
  {b : Block}

theorem Cut.read (cut : Cut s token) : FailsAs (Error.Within token) (Block.read token) ∧
    ∀ b, Block.read token = .ok b → b.kind = none →
      Level 0 b.name.toList ∧ allBlank b.name.toList = false := by
  induction cut with
  | escaped _ ih | passed _ _ _ ih | within _ _ _ _ _ ih | behind _ _ _ ih => exact ih
  | here opens closes => exact Block.read_cut opens closes

/-! ## Nothing to read -/

theorem flush_eq_nil : flush word pieces = [] ↔ word = [] ∧ pieces = [] := by
  unfold flush
  split
  · next none => simp [List.isEmpty_iff.mp none]
  · next some => simp [mt List.isEmpty_iff.mpr some]

theorem reads_eq_nil : Reads word s [] ↔ word = [] ∧ allBlank s = true := by
  constructor
  · intro h
    generalize none : ([] : List Piece) = pieces at h
    induction h with
    | nil => exact ⟨(flush_eq_nil.mp none.symm).1, rfl⟩
    | escaped _ ih => cases (ih none).1
    | reference => cases (flush_eq_nil.mp none.symm).2
    | group => cases (flush_eq_nil.mp none.symm).2
    | blank _ blank _ ih =>
      obtain ⟨rfl, rfl⟩ := flush_eq_nil.mp none.symm
      refine ⟨rfl, ?_⟩
      simpa [allBlank, blank] using (ih rfl).2
    | char _ _ _ _ _ ih => cases (ih none).1
  · rintro ⟨rfl, blank⟩
    induction s with
    | nil => exact .nil
    | cons c s ih =>
      obtain ⟨first, later⟩ : isBlank c = true ∧ allBlank s = true := by
        simpa [allBlank] using blank
      exact .blank (opening?_blank first) first (ih later)

/-! ## What reading fails for -/

/-- The error is about the parts of a block that is cut out of `s`, or it is about the brackets of
the text, and then those of `s` are out of order. -/
def Error.Explained (text : String) (s : List Char) (e : Error) : Prop :=
  (∃ token, Cut s token ∧ e.Within token) ∨
    ¬ Level 0 s ∧ (e = .malformed text .unclosed ∨ e = .malformed text .strayClosing)

/-- What explains an error of the rest of a text explains it for the text. -/
theorem Error.Explained.further {text : String} {e : Error} (h : e.Explained text rest)
    (cuts : ∀ token, Cut rest token → Cut s token) (level : Level 0 s → Level 0 rest) :
    e.Explained text s := by
  rcases h with ⟨token, cut, within⟩ | ⟨crossed, brackets⟩
  · exact .inl ⟨token, cuts token cut, within⟩
  · exact .inr ⟨fun fine => crossed (level fine), brackets⟩

theorem level_behind (opens : opening? s = some (marks, inside))
    (closes : throughClosing? 0 inside = some (inner, after)) (level : Level 0 s) :
    Level 0 after := by
  obtain ⟨inner', after', found, later⟩ :=
    throughClosing?_of_level ((Block.level_of_opening? opens).mp level)
  rw [closes] at found
  cases found
  exact later

theorem readPieces_fails (text : String) (word s : List Char) :
    FailsAs (Error.Explained text s) (readPieces text word s) := by
  fun_induction readPieces text word s with
  | case1 => exact failsAs_ok
  | case2 text word c rest ih =>
    exact ih.mono fun e h => h.further (fun _ => .escaped) id
  | case3 text word c rest alone marks inside opens unclosed =>
    refine failsAs_error.mpr (.inr ⟨fun level => ?_, .inl rfl⟩)
    obtain ⟨inner, after, found, -⟩ :=
      throughClosing?_of_level ((Block.level_of_opening? opens).mp level)
    rw [unclosed] at found
    cases found
  | case4 text word c rest alone marks inside opens inner after closes e refused =>
    have cut : Cut (c :: rest) (marks ++ inner) := .here opens closes
    exact failsAs_error.mpr (.inl ⟨_, cut, cut.read.1 e refused⟩)
  | case5 text word c rest alone marks inside opens inner after closes b block kind known ih =>
    refine (ih.mono fun e h => ?_).map _
    exact h.further (fun _ => .behind opens closes) (level_behind opens closes)
  | case6 text word c rest alone marks inside opens inner after closes b block grouped e refused
      ih =>
    -- the body of a group is level, so the error is about a block in it
    have cut : Cut (c :: rest) (marks ++ inner) := .here opens closes
    have level := (cut.read.2 b block grouped).1
    rcases ih e refused with ⟨token, inner, within⟩ | ⟨crossed, -⟩
    · exact failsAs_error.mpr (.inl ⟨token, .within opens closes block grouped inner, within⟩)
    · exact absurd level crossed
  | case7 text word c rest alone marks inside opens inner after closes b block grouped none =>
    have cut : Cut (c :: rest) (marks ++ inner) := .here opens closes
    have filled := (cut.read.2 b block grouped).2
    rw [(reads_eq_nil.mp (readPieces_eq_ok.mp none)).2] at filled
    cases filled
  | case8 text word c rest alone marks inside opens inner after closes b block grouped pieces some
      named ih ih' =>
    refine (ih'.mono fun e h => ?_).map _
    exact h.further (fun _ => .behind opens closes) (level_behind opens closes)
  | case9 text word c rest alone closed blank ih =>
    refine (ih.mono fun e h => ?_).map _
    exact h.further (fun _ => .passed (last_of_alone alone) closed) (level_blank blank).mp
  | case10 text word rest alone closed visible =>
    refine failsAs_error.mpr (.inr ⟨fun level => ?_, .inr rfl⟩)
    exact ((level_cons fun same => absurd same (by decide)).mp level).1 rfl rfl
  | case11 text word c rest alone closed visible inside ih =>
    have opens : c ≠ '[' := by
      rintro rfl
      cases closed
    refine ih.mono fun e h => ?_
    apply h.further (fun _ => .passed (last_of_alone alone) closed)
    rw [level_cons (last_of_alone alone), depthAfter_of_ne opens inside]
    exact And.right

/-! ## Rules -/

namespace Rule

/-- What reading a rule fails for: there is nothing to read, or its pieces cannot be read. -/
theorem read_fails (text : String) : FailsAs (fun e =>
    e = .badLine text .emptyRule ∧ allBlank text.toList = true ∨ e.Explained text text.toList)
    (read text) := by
  refine FailsAs.bind_ok (fun e failed => ?_) fun pieces read => ?_
  · exact .inr (readPieces_fails text [] text.toList e failed)
  · cases pieces with
    | nil => exact failsAs_error.mpr (.inl ⟨rfl, (reads_eq_nil.mp (readPieces_eq_ok.mp read)).2⟩)
    | cons => exact failsAs_ok

theorem read_eq_badLine {text : String} :
    read text = .error (.badLine text .emptyRule) ↔ allBlank text.toList = true := by
  constructor
  · intro failed
    rcases read_fails text _ failed with ⟨-, blank⟩ | ⟨token, -, fault, same, -⟩ | ⟨-, same | same⟩
    · exact blank
    · cases same
    · cases same
    · cases same
  · intro blank
    have pieces : readPieces text [] text.toList = .ok [] :=
      readPieces_eq_ok.mpr (reads_eq_nil.mpr ⟨rfl, blank⟩)
    rw [read, pieces]
    rfl

/-- Reading the body of a group that is cut out fails for a block in it, if it fails. -/
theorem read_body (cut : Cut s token) (block : Block.read token = .ok b) (grouped : b.kind = none) :
    FailsAs (fun e => ∃ inner, Cut b.name.toList inner ∧ e.Within inner) (read b.name) := by
  obtain ⟨level, filled⟩ := cut.read.2 b block grouped
  intro e failed
  rcases read_fails b.name e failed with ⟨-, blank⟩ | within | ⟨crossed, -⟩
  · rw [blank] at filled
    cases filled
  · exact within
  · exact absurd level crossed

/-- Whatever a rule is, reading it is no misuse. -/
theorem plain_read (text : String) : FailsAs Error.Plain (read text) := by
  intro e failed
  rcases read_fails text e failed with ⟨rfl, -⟩ | ⟨_, -, _, rfl, -⟩ | ⟨-, rfl | rfl⟩ <;> trivial

theorem plain_readFor (kind : Kind) (text : String) : FailsAs Error.Plain (readFor kind text) := by
  unfold readFor
  split
  · unfold readSlot
    split
    · exact plain_read text
    · next phrase value _ =>
      dsimp only
      split
      · exact failsAs_error.mpr trivial
      · exact (plain_read _).bind fun rule => failsAs_ok
  · exact plain_read text

end Rule

/-! ## Declarations -/

/-- A block with a sigil in front is one of that kind, or it is malformed. -/
theorem Block.read_sigil (kind : Kind) (rest : List Char) :
    FailsAs Error.Plain (read (kind.sigil :: rest)) ∧
      ∀ b, read (kind.sigil :: rest) = .ok b → b.kind = some kind := by
  have known : kind? (kind.sigil :: rest) = .ok (some kind) := by cases kind <;> rfl
  constructor
  · rw [read, known]
    simp only [bind, Except.bind]
    split
    · split
      · exact failsAs_error.mpr trivial
      · split
        · exact failsAs_error.mpr trivial
        · exact failsAs_ok
    · exact failsAs_error.mpr trivial
  · intro b reads
    obtain ⟨kind', inner, same, -, inside⟩ := read_eq_ok_iff.mp reads
    rw [kind_of_ofInside inside]
    obtain ⟨known', -⟩ := kind?_eq_ok.mpr same
    exact Except.ok.inj (known'.symm.trans known)

/-- A line that starts with a sigil declares, or it is wrong in itself. -/
theorem Declaration.plain_read (kind : Kind) (rest : List Char) :
    FailsAs Error.Plain (read (kind.sigil :: rest)) := by
  rw [read]
  cases cut : splitAtMark? ']' (kind.sigil :: rest) with
  | none => exact failsAs_error.mpr trivial
  | some parts =>
    obtain ⟨before, after⟩ := parts
    -- the first bracket is not the sigil, so this is at the front of the block
    obtain ⟨rest', rfl⟩ : ∃ rest', before = kind.sigil :: rest' := by
      cases before with
      | nil =>
        have front := congrArg List.head? (eq_of_splitAtMark? cut)
        cases kind <;> cases front
      | cons c before =>
        have front := congrArg List.head? (eq_of_splitAtMark? cut)
        exact ⟨before, by rw [Option.some.inj front]⟩
    obtain ⟨fails, reads⟩ := Block.read_sigil kind (rest' ++ [']'])
    apply fails.bind_ok
    intro b block
    rw [reads b block]
    dsimp only
    split
    · exact failsAs_error.mpr trivial
    · exact (plain_readCount kind _ _).bind fun count => failsAs_ok

/-! ## Templates -/

/-- The error is not a misuse of the library. -/
def Error.Proper (e : Error) : Prop := ∀ fault, e.root ≠ .misuse fault

theorem Error.Plain.proper {e : Error} (plain : e.Plain) : e.Proper := by
  intro fault misused
  rw [plain.local.root] at misused
  rw [misused] at plain
  exact plain

theorem Template.covers_proper : Covers Error.Proper fun _ => True where
  located _ n e proper fault := by
    rw [Error.root_locate]
    exact proper fault
  joined _ _ := trivial
  written _ := trivial
  line _ _ _ := nofun
  rules kind text := (Rule.plain_readFor kind text).mono fun _ => Error.Plain.proper
  heads kind rest := (Declaration.plain_read kind rest).mono fun _ => Error.Plain.proper
  declares store d := (store.plain_declare d).mono fun _ => Error.Plain.proper
  included _ _ _ := nofun
  files _ _ := nofun

/-- **Blocks are cut out of a text just as they are read.** A rule is empty just when it is blank,
and what else it fails for is a malformed block or text. In what is cut out, at any depth, only the
parts of blocks can be malformed, and the body of a group is never empty. The count of open brackets
never goes below zero. No template is a misuse of the library. -/
theorem brackets_agree (text : String) :
    (Rule.read text = .error (.badLine text .emptyRule) ↔ allBlank text.toList = true) ∧
    (∀ e, Rule.read text = .error e →
      e = .badLine text .emptyRule ∨ ∃ source fault, e = .malformed source fault) ∧
    (∀ token, Cut text.toList token →
      (∀ e, Block.read token = .error e → e.Within token) ∧
      ∀ b, Block.read token = .ok b → b.kind = none →
        ∀ e, Rule.read b.name = .error e → ∃ inner, Cut b.name.toList inner ∧ e.Within inner) ∧
    (∀ inside, closing 0 ('[' :: inside) =
      .ok ((throughClosing? 0 inside).map fun parts => ('[' :: parts.1, parts.2))) ∧
    ∀ fs e, Template.read fs text = .error e → ∀ fault, e.root ≠ .misuse fault := by
  have fails : ∀ e, Rule.read text = .error e →
      e = .badLine text .emptyRule ∨ ∃ source fault, e = .malformed source fault := by
    intro e failed
    rcases Rule.read_fails text e failed with ⟨rfl, -⟩ | ⟨_, -, _, rfl, -⟩ | ⟨-, rfl | rfl⟩
    · exact .inl rfl
    · exact .inr ⟨_, _, rfl⟩
    · exact .inr ⟨_, _, rfl⟩
    · exact .inr ⟨_, _, rfl⟩
  have cuts : ∀ token, Cut text.toList token → FailsAs (Error.Within token) (Block.read token) ∧
      ∀ b, Block.read token = .ok b → b.kind = none →
        FailsAs (fun e => ∃ inner, Cut b.name.toList inner ∧ e.Within inner) (Rule.read b.name) :=
    fun token cut => ⟨cut.read.1, fun b => Rule.read_body cut⟩
  have proper : ∀ fs, FailsAs Error.Proper (Template.read fs text) :=
    fun fs => Template.addLines_covered Template.covers_proper trivial trivial
  exact ⟨Rule.read_eq_badLine, fails, cuts, closing_opening, proper⟩

/-- What is wrong with a block in the body of a group is found in that block. -/
theorem brackets_agree_nested : Cut "[good ~[day?often/101]]".toList "~[day?often/101]".toList ∧
    Block.read "~[day?often/101]".toList =
      .error (.malformed "~[day?often/101]" .percentOutOfRange) ∧
    Error.Within "~[day?often/101]".toList (.malformed "~[day?often/101]" .percentOutOfRange) := by
  have opens : opening? "~[day?often/101]".toList = some ("~[".toList, "day?often/101]".toList) :=
    rfl
  have closes : throughClosing? 0 "day?often/101]".toList = some ("day?often/101]".toList, []) :=
    rfl
  have body : Cut "good ~[day?often/101]".toList "~[day?often/101]".toList := by
    -- the letters and the blank in front of the block
    iterate 5 apply Cut.passed (by decide) rfl
    exact Cut.here opens closes
  have cut : Cut "[good ~[day?often/101]]".toList "~[day?often/101]".toList :=
    Cut.within rfl rfl rfl rfl body
  have refused : Block.read "~[day?often/101]".toList =
      .error (.malformed "~[day?often/101]" .percentOutOfRange) := by rfl
  obtain ⟨-, -, tokens, -⟩ := brackets_agree "[good ~[day?often/101]]"
  exact ⟨cut, refused, (tokens _ cut).1 _ refused⟩

end Phrasebook
