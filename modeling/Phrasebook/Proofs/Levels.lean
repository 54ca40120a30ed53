import Phrasebook.Proofs.Grammar
import Phrasebook.Proofs.Trailing

/-!
# Depth of brackets

Three readers follow the brackets of a text, each on its own: one looks for the bracket that closes
a block, one tests that the last bracket of the block is not escaped, and one takes the parts of the
block apart. They agree, because of what the first of them leaves to the others.

* `Text.Level`: brackets lead from some depth to the outside, and never further;
* `closing_eq`: the search for the closing bracket counts, and never below zero;
* `level_of_throughClosing?`, `throughClosing?_of_level`: what is cut out is level, and in level
  text every block is closed;
* `Block.part_level`: a part of level text is level, and never unbalanced.
-/

namespace Phrasebook

namespace Text

variable {s t inner after bs : List Char} {depth : Nat} {c : Char}

/-- The brackets of a text that starts `depth` levels inside lead out of them, and never further. A
backslash makes the next character literal, if there is one. -/
def Level : Nat → List Char → Prop
  | depth, [] => depth = 0
  | depth, '\\' :: _ :: rest => Level depth rest
  | depth, c :: rest => (c = ']' → depth ≠ 0) ∧ Level (depthAfter c depth) rest

theorem level_cons (alone : c = '\\' → s = []) :
    Level depth (c :: s) ↔ (c = ']' → depth ≠ 0) ∧ Level (depthAfter c depth) s := by
  rw [Level]
  intro d rest same more
  simp [alone same] at more

theorem level_plain (opens : c ≠ '[') (closes : c ≠ ']') (unescaped : c ≠ '\\') :
    Level depth (c :: s) ↔ Level depth s := by
  rw [level_cons fun same => absurd same unescaped, depthAfter_of_ne opens closes]
  exact and_iff_right fun same => absurd same closes

theorem level_blank (blank : isBlank c = true) : Level depth (c :: s) ↔ Level depth s :=
  have ⟨opens, closes, unescaped⟩ := ordinary_of_isBlank blank
  level_plain opens closes unescaped

theorem level_opening : Level depth ('[' :: s) ↔ Level (depth + 1) s := by
  rw [level_cons fun same => absurd same (by decide)]
  exact and_iff_right fun same => absurd same (by decide)

/-! ## Trimming -/

theorem level_append_blank (blank : isBlank c = true) : Level depth (s ++ [c]) = Level depth s := by
  fun_induction Level depth s with
  | case1 depth => exact propext (level_blank blank)
  | case2 depth d rest ih => exact ih
  | case3 depth d rest alone ih =>
    by_cases same : d = '\\'
    · obtain rfl := last_of_alone alone same
      -- the blank was escaped, and its backslash stays behind
      subst same
      simp [Level, depthAfter]
    · rw [List.cons_append, level_cons fun h => absurd h same, ih]

theorem level_trim : Level depth (trim s) ↔ Level depth s := by
  have start : Level depth (trimStart s) ↔ Level depth s := by
    induction s with
    | nil => rfl
    | cons c s ih =>
      cases blank : isBlank c with
      | true => rw [trimStart_cons_blank blank, ih, level_blank blank]
      | false => rw [trimStart_cons blank]
  obtain ⟨bs, blank, whole⟩ := exists_trimEnd (trimStart s)
  rw [← start, whole]
  exact iff_of_eq (append_blanks (fun _ _ => level_append_blank) blank (trim s)).symm

/-! ## The closing bracket -/

/-- The search for the bracket that closes a block as a count of the brackets that are open, from
the one that opens the block on. It fails where the count would go below zero. -/
def closing (opened : Nat) : List Char → Except Unit (Option (List Char × List Char))
  | [] => .ok none
  | '\\' :: c :: rest =>
    (closing opened rest).map (Option.map fun parts => ('\\' :: c :: parts.1, parts.2))
  | c :: rest =>
    if c = ']' then
      if opened = 0 then .error ()
      else if opened = 1 then .ok (some ([c], rest))
      else (closing (opened - 1) rest).map (Option.map fun parts => (c :: parts.1, parts.2))
    else
      (closing (if c = '[' then opened + 1 else opened) rest).map
        (Option.map fun parts => (c :: parts.1, parts.2))

theorem closing_cons {opened : Nat} (alone : c = '\\' → s = []) : closing opened (c :: s) =
    if c = ']' then
      if opened = 0 then .error ()
      else if opened = 1 then .ok (some ([c], s))
      else (closing (opened - 1) s).map (Option.map fun parts => (c :: parts.1, parts.2))
    else
      (closing (if c = '[' then opened + 1 else opened) s).map
        (Option.map fun parts => (c :: parts.1, parts.2)) := by
  rw [closing]
  intro d rest same more
  simp [alone same] at more

/-- The count never goes below zero, and the search finds what it finds without a count. -/
theorem closing_eq (depth : Nat) (s : List Char) :
    closing (depth + 1) s = .ok (throughClosing? depth s) := by
  fun_induction throughClosing? depth s with
  | case1 depth => rw [closing]
  | case2 depth c rest ih =>
    rw [closing, ih]
    rfl
  | case3 depth c rest alone here =>
    obtain ⟨rfl, rfl⟩ : c = ']' ∧ depth = 0 := by simpa using here
    rw [closing_cons fun same => absurd same (by decide), if_pos rfl, if_neg (by decide),
      if_pos rfl]
  | case4 depth c rest alone passes ih =>
    have inside : c = ']' → depth ≠ 0 := by simpa using passes
    rw [closing_cons (last_of_alone alone)]
    by_cases closes : c = ']'
    · have deep := inside closes
      have above : depthAfter c depth + 1 = depth := by
        have left : depthAfter ']' depth = depth - 1 := rfl
        rw [closes, left]
        omega
      rw [above] at ih
      rw [if_pos closes, if_neg (by omega), if_neg (by omega), Nat.add_sub_cancel, ih]
      rfl
    · have level : depthAfter c depth + 1 = if c = '[' then depth + 1 + 1 else depth + 1 := by
        unfold depthAfter
        split <;> simp_all
      rw [if_neg closes, ← level, ih]
      rfl

theorem closing_opening (inside : List Char) : closing 0 ('[' :: inside) =
    .ok ((throughClosing? 0 inside).map fun parts => ('[' :: parts.1, parts.2)) := by
  rw [closing_cons fun same => absurd same (by decide), if_neg (by decide), if_pos rfl, closing_eq]
  rfl

/-- What is cut out is level up to the closing bracket, and this one is not escaped. -/
theorem level_of_throughClosing? (h : throughClosing? depth s = some (inner, after)) :
    ∃ body, inner = body ++ [']'] ∧ Level depth body ∧ Whole body := by
  fun_induction throughClosing? depth s generalizing inner after with
  | case1 => cases h
  | case2 depth c rest ih =>
    obtain ⟨parts, found, same⟩ := Option.map_eq_some_iff.mp h
    cases same
    obtain ⟨body, same, level, whole⟩ := ih found
    exact ⟨'\\' :: c :: body, by rw [same]; rfl, level, whole⟩
  | case3 depth c rest alone here =>
    cases h
    obtain ⟨rfl, rfl⟩ : c = ']' ∧ depth = 0 := by simpa using here
    exact ⟨[], rfl, rfl, trivial⟩
  | case4 depth c rest alone passes ih =>
    obtain ⟨parts, found, same⟩ := Option.map_eq_some_iff.mp h
    cases same
    obtain ⟨body, same, level, whole⟩ := ih found
    have unescaped : c ≠ '\\' := by
      intro escape
      rw [last_of_alone alone escape] at found
      cases found
    refine ⟨c :: body, by rw [same]; rfl, ?_, (whole_cons unescaped body).mpr whole⟩
    rw [level_cons fun same => absurd same unescaped]
    exact ⟨by simpa using passes, level⟩

/-- Inside of level text every block is closed, and what follows it is level. -/
theorem throughClosing?_of_level (level : Level (depth + 1) s) :
    ∃ inner after, throughClosing? depth s = some (inner, after) ∧ Level 0 after := by
  fun_induction throughClosing? depth s with
  | case1 => cases level
  | case2 depth c rest ih =>
    obtain ⟨inner, after, found, later⟩ := ih level
    exact ⟨_, after, by rw [found]; rfl, later⟩
  | case3 depth c rest alone here =>
    obtain ⟨rfl, rfl⟩ : c = ']' ∧ depth = 0 := by simpa using here
    rw [level_cons fun same => absurd same (by decide)] at level
    exact ⟨_, rest, rfl, level.2⟩
  | case4 depth c rest alone passes ih =>
    have further := (level_cons (last_of_alone alone)).mp level
    rw [depthAfter_succ (by simpa using passes)] at further
    obtain ⟨inner, after, found, later⟩ := ih further.2
    exact ⟨_, after, by rw [found]; rfl, later⟩

end Text

/-- A fault of the parts of a block, and not of the brackets around them or of those in them. Only a
block that does not nest others can have brackets where they are not allowed. -/
def BlockFault.Inner (nests : Bool) : BlockFault → Prop
  | noOpeningBracket | noClosingBracket | unbalanced | unclosed | strayClosing => False
  | groupOnDeclaration | secondCount => False
  | bracketInName => nests = false
  | _ => True

/-- The error is about the parts of this block. A block that starts with a bracket is a group, and
nests others. -/
def Error.Within (token : List Char) (e : Error) : Prop :=
  ∃ fault, e = .malformed (.ofList token) fault ∧ fault.Inner (token.head? == some '[')

namespace Block

open Text

variable {nests : Bool} {depth : Nat} {s raw after : List Char}

/-- In an inline group a part of level text is level, and so is what follows it. In a reference
there are no brackets. In neither case are they unbalanced. -/
theorem part_level (level : nests = true → Level depth s) (flat : nests = false → depth = 0) :
    FailsAs (BlockFault.Inner nests) (part nests depth s) ∧
      ∀ raw after, part nests depth s = .ok (raw, after) →
        nests = true → Level depth raw ∧ Level 0 after := by
  fun_induction part nests depth s with
  | case1 =>
    refine ⟨failsAs_ok, fun raw after h _ => ?_⟩
    cases h
    exact ⟨rfl, rfl⟩
  | case2 depth deep =>
    cases nests with
    | true => exact absurd (level rfl) deep
    | false => exact absurd (flat rfl) deep
  | case3 depth c rest ih =>
    obtain ⟨fails, reads⟩ := ih level flat
    refine ⟨fails.map _, fun raw after h nested => ?_⟩
    obtain ⟨parts, read, same⟩ := map_eq_ok.mp h
    cases same
    exact reads parts.1 parts.2 read nested
  | case4 depth c rest alone brackets =>
    have flat : nests = false := by simp_all
    refine ⟨failsAs_error.mpr flat, fun raw after h => ?_⟩
    cases h
  | case5 depth c rest alone brackets shallow =>
    obtain ⟨rfl, rfl⟩ : c = ']' ∧ depth = 0 := by simpa using shallow
    have nested : nests = true := by simpa using brackets
    exact absurd rfl (((level_cons fun same => absurd same (by decide)).mp (level nested)).1 rfl)
  | case6 depth c rest alone brackets inside here =>
    obtain rfl : depth = 0 := by simp_all
    refine ⟨failsAs_ok, fun raw after h nested => ?_⟩
    cases h
    exact ⟨rfl, level nested⟩
  | case7 depth c rest alone brackets inside further ih =>
    have step : Level depth (c :: rest) ↔ _ := level_cons (last_of_alone alone)
    have flat' : nests = false → depthAfter c depth = 0 := by
      intro plain
      have free : c ≠ '[' ∧ c ≠ ']' := by simpa [plain] using brackets
      rw [depthAfter_of_ne free.1 free.2, flat plain]
    obtain ⟨fails, reads⟩ := ih (fun nested => (step.mp (level nested)).2) flat'
    refine ⟨fails.map _, fun raw after h nested => ?_⟩
    obtain ⟨parts, read, same⟩ := map_eq_ok.mp h
    cases same
    obtain ⟨later, others⟩ := reads parts.1 parts.2 read nested
    have alone' : c = '\\' → parts.1 = [] := by
      intro escape
      have shorter := part_length read
      rw [last_of_alone alone escape, List.length_nil] at shorter
      exact List.eq_nil_of_length_eq_zero (by omega)
    exact ⟨(level_cons alone').mpr ⟨(step.mp (level nested)).1, later⟩, others⟩

/-! ## Blocks part by part -/

theorem readName_level (level : nests = true → Level 0 s) :
    FailsAs (BlockFault.Inner nests) (readName nests s) ∧
      ∀ name after, readName nests s = .ok (name, after) →
        nests = true → Level 0 name ∧ Level 0 after := by
  obtain ⟨fails, reads⟩ := part_level level fun _ => rfl
  constructor
  · apply fails.bind
    intro parts
    dsimp only
    generalize (if nests then trim parts.1 else unescape parts.1) = name
    split
    · exact failsAs_error.mpr trivial
    · exact failsAs_ok
  · intro name after h nested
    obtain ⟨raw, read, rfl, -⟩ := readName_eq_ok.mp h
    obtain ⟨title, later⟩ := reads raw after read nested
    rw [if_pos nested]
    exact ⟨level_trim.mpr title, later⟩

theorem readVariation_level (level : nests = true → Level 0 s) :
    FailsAs (BlockFault.Inner nests) (readVariation nests s) ∧
      ∀ variation after, readVariation nests s = .ok (variation, after) →
        nests = true → Level 0 after := by
  unfold readVariation
  split
  · next rest =>
    have level' : nests = true → Level 0 rest := fun nested =>
      (level_plain (by decide) (by decide) (by decide)).mp (level nested)
    obtain ⟨fails, reads⟩ := part_level level' fun _ => rfl
    constructor
    · apply fails.bind
      intro parts
      dsimp only
      split
      · exact failsAs_error.mpr trivial
      · split
        · exact failsAs_error.mpr trivial
        · exact failsAs_ok
    · intro variation after h nested
      obtain ⟨parts, read, h⟩ := bind_eq_ok.mp h
      dsimp only at h
      split at h
      · cases h
      · split at h
        · cases h
        · cases h
          exact (reads parts.1 parts.2 read nested).2
  · refine ⟨failsAs_ok, fun variation after h => ?_⟩
    cases h
    exact level

theorem readInclusion_fails (level : nests = true → Level 0 s) :
    FailsAs (BlockFault.Inner nests) (readInclusion nests s) := by
  unfold readInclusion
  split
  · exact failsAs_error.mpr trivial
  · next rest =>
    have level' : nests = true → Level 0 rest := fun nested =>
      (level_plain (by decide) (by decide) (by decide)).mp (level nested)
    obtain ⟨fails, reads⟩ := part_level level' fun _ => rfl
    apply fails.bind_ok
    intro parts read
    dsimp only
    split
    · exact failsAs_error.mpr trivial
    · exact failsAs_error.mpr trivial
    · next digits same =>
      have level'' : nests = true → Level 0 digits := by
        intro nested
        have later := (reads parts.1 parts.2 read nested).2
        rw [same] at later
        exact (level_plain (by decide) (by decide) (by decide)).mp later
      apply (part_level level'' fun _ => rfl).1.bind
      intro parts'
      split
      · exact failsAs_ok
      · exact failsAs_error.mpr trivial
    · exact failsAs_ok
  · exact failsAs_ok

/-- A block that is level inside has no fault but in its parts, and the body of a group is level. -/
theorem ofInside_level (kind : Option Kind) {inner : List Char} (level : Level 0 inner) :
    FailsAs (BlockFault.Inner kind.isNone) (ofInside kind inner) ∧
      ∀ b, ofInside kind inner = .ok b → b.kind = none → Level 0 b.name.toList := by
  have casing : Level 0 (readCasing inner).2 := by
    unfold readCasing
    split
    · exact (level_plain (by decide) (by decide) (by decide)).mp level
    · exact level
  obtain ⟨named, name⟩ := readName_level fun _ : kind.isNone = true => casing
  constructor
  · apply named.bind_ok
    rintro ⟨title, s⟩ read
    obtain ⟨varied, variation⟩ :=
      readVariation_level fun nested => (name title s read nested).2
    apply varied.bind_ok
    rintro ⟨v, s'⟩ read'
    apply (readInclusion_fails (variation v s' read')).bind
    rintro ⟨group, percent, s''⟩
    dsimp only
    split
    · exact failsAs_ok
    · exact failsAs_error.mpr trivial
  · intro b h grouped
    obtain ⟨title, s, _, _, _, _, read, -, -, rfl⟩ := ofInside_eq_ok.mp h
    have nested : kind.isNone = true := Option.isNone_iff_eq_none.mpr grouped
    rw [String.toList_ofList]
    exact (name title s read nested).1

/-! ## Blocks that are cut out -/

theorem read_opening {kind : Option Kind} {inner : List Char} (whole : Whole inner) :
    read (Parts.opening kind ++ (inner ++ [']'])) =
      (ofInside kind inner).mapError
        (.malformed (.ofList (Parts.opening kind ++ (inner ++ [']'])))) := by
  obtain ⟨known, bracket⟩ := kind?_eq_ok.mpr (Eq.refl (Parts.opening kind ++ (inner ++ [']'])))
  have inside : inside? (inner ++ [']']) = some inner := inside?_eq_some.mpr ⟨rfl, whole⟩
  rw [read, known]
  simp only [bind, Except.bind, bracket, inside]
  cases ofInside kind inner <;> rfl

theorem opening_of_opening? {s marks inside : List Char} (h : opening? s = some (marks, inside)) :
    ∃ kind, marks = Parts.opening kind ∧ s = marks ++ inside := by
  unfold opening? at h
  split at h
  · cases h
    exact ⟨none, rfl, rfl⟩
  · next c rest _ =>
    split at h
    · next sigil =>
      cases h
      obtain ⟨kind, known⟩ := Option.isSome_iff_exists.mp sigil
      exact ⟨some kind, by rw [Kind.sigil_of_ofSigil? known]; rfl, rfl⟩
    · cases h
  · cases h

theorem level_of_opening? {s marks inside : List Char} (h : opening? s = some (marks, inside)) :
    Level 0 s ↔ Level 1 inside := by
  obtain ⟨kind, rfl, rfl⟩ := opening_of_opening? h
  cases kind with
  | none => exact level_opening
  | some kind =>
    have plain : kind.sigil ≠ '[' ∧ kind.sigil ≠ ']' ∧ kind.sigil ≠ '\\' := by
      cases kind <;> decide
    exact (level_plain plain.1 plain.2.1 plain.2.2).trans level_opening

/-- A block that is cut out of a text has no fault but in its parts. If it is a group, its body is
level, and not blank. -/
theorem read_cut {s marks inside inner after : List Char}
    (opens : opening? s = some (marks, inside))
    (closes : throughClosing? 0 inside = some (inner, after)) :
    FailsAs (Error.Within (marks ++ inner)) (read (marks ++ inner)) ∧
    ∀ b, read (marks ++ inner) = .ok b → b.kind = none →
      Level 0 b.name.toList ∧ allBlank b.name.toList = false := by
  obtain ⟨kind, rfl, -⟩ := opening_of_opening? opens
  obtain ⟨body, rfl, level, whole⟩ := level_of_throughClosing? closes
  obtain ⟨fails, named⟩ := ofInside_level kind level
  have nests : ((Parts.opening kind ++ (body ++ [']'])).head? == some '[') = kind.isNone := by
    cases kind with
    | none => rfl
    | some kind => cases kind <;> rfl
  rw [read_opening whole]
  constructor
  · rintro e failed
    cases inside : ofInside kind body with
    | error fault =>
      rw [inside] at failed
      cases failed
      exact ⟨fault, rfl, by rw [nests]; exact fails fault inside⟩
    | ok b =>
      rw [inside] at failed
      cases failed
  · intro b h grouped
    have inside := mapError_eq_ok.mp h
    exact ⟨named b inside grouped, (ofInside_sound inside).2⟩

end Block
end Phrasebook
