import Phrasebook.Error
import Phrasebook.Rule
import Phrasebook.Text.Bracket
import Phrasebook.Text.Escape
import Phrasebook.Text.Numeral

/-!
# Blocks

A block is what stands in brackets, with an optional sigil in front:

    block   = sigil? "[" "&"? name ("#" variation)? ("?" group ("/" percent)?)? "]"
    percent = a whole number from 0 to 100

Without a sigil the block is an inline group, its name is the body of the group and may nest
further blocks. The parts of a reference hold no brackets. Anything can be made literal by a
backslash.
-/
namespace Phrasebook

/-- `kind` is missing for an inline group, whose name is its body with escapes kept. -/
structure Block where
  kind : Option Kind
  name : String
  modifiers : Modifiers
deriving DecidableEq, Repr

namespace Block

/-- The kind of a block, read off its first character. -/
def kind? (text : List Char) : Outcome (Option Kind) :=
  match text with
  | '[' :: _ => .ok none
  | c :: _ =>
    match Kind.ofSigil? c with
    | some k => .ok (some k)
    | none => .error (.misuse (.notAUnit (.ofList text)))
  | [] => .error (.misuse (.notAUnit ""))

/-- What stands between an opening bracket and the final character, which has to be a closing
bracket that is not escaped. -/
def inside? (afterOpening : List Char) : Option (List Char) :=
  let inner := afterOpening.dropLast
  let escapes := inner.reverse.takeWhile (· = '\\')
  if afterOpening.getLast? = some ']' && escapes.length % 2 == 0 then some inner else none

def isStop (c : Char) : Bool := c = '#' || c = '?' || c = '/'

/-- One part of a block, up to the next structural character outside of nested brackets. Brackets
are nested in an inline group only. -/
def part (nests : Bool) (depth : Nat) :
    List Char → Except BlockFault (List Char × List Char)
  | [] => if depth = 0 then .ok ([], []) else .error .unbalanced
  | '\\' :: c :: rest => (part nests depth rest).map fun parts => ('\\' :: c :: parts.1, parts.2)
  | c :: rest =>
    if (c = '[' || c = ']') && !nests then .error .bracketInName
    else if c = ']' && depth = 0 then .error .unbalanced
    else if depth = 0 && isStop c then .ok ([], c :: rest)
    else (part nests (Text.depthAfter c depth) rest).map fun parts => (c :: parts.1, parts.2)

theorem part_length {nests : Bool} {depth : Nat} {s text after : List Char}
    (h : part nests depth s = .ok (text, after)) : text.length + after.length = s.length := by
  fun_induction part nests depth s generalizing text after with
  | case1 => simp_all
  | case2 => simp_all
  | case3 depth c rest ih =>
    cases hp : part nests depth rest with
    | error e => simp [hp, Except.map] at h
    | ok parts =>
      simp only [hp, Except.map, Except.ok.injEq, Prod.mk.injEq] at h
      have := ih hp
      simp only [← h.1, ← h.2, List.length_cons]
      omega
  | case4 => simp at h
  | case5 => simp at h
  | case6 => simp_all
  | case7 depth c rest _ _ _ _ ih =>
    cases hp : part nests (Text.depthAfter c depth) rest with
    | error e => simp [hp, Except.map] at h
    | ok parts =>
      simp only [hp, Except.map, Except.ok.injEq, Prod.mk.injEq] at h
      have := ih hp
      simp only [← h.1, ← h.2, List.length_cons]
      omega

/-- The name of a block, or the trimmed body of a group. It may not be blank. -/
def readName (nests : Bool) (s : List Char) : Except BlockFault (List Char × List Char) := do
  let (raw, after) ← part nests 0 s
  let name := if nests then Text.trim raw else Text.unescape raw
  if Text.allBlank name then .error .emptyName else .ok (name, after)

theorem readName_length {nests : Bool} {s name after : List Char}
    (h : readName nests s = .ok (name, after)) : name.length ≤ s.length := by
  unfold readName at h
  cases hp : part nests 0 s with
  | error e => simp [hp, bind, Except.bind] at h
  | ok parts =>
    have := part_length hp
    have := Text.trim_length parts.1
    have := Text.unescape_length parts.1
    simp only [hp, bind, Except.bind] at h
    split at h <;> split at h <;> simp at h
    all_goals
      rw [← h.1]
      omega

def readVariation (nests : Bool) (s : List Char) :
    Except BlockFault (Option String × List Char) := do
  match s with
  | '#' :: rest =>
    let (raw, after) ← part nests 0 rest
    let name := Text.unescape raw
    if name.isEmpty then .error .emptyVariation
    else if after.head? = some '#' then .error .secondVariation
    else .ok (some (.ofList name), after)
  | _ => .ok (none, s)

def percent? (s : List Char) : Option UInt8 := do
  let n ← Text.digits? s
  if n ≤ 100 then some (.ofNat n) else none

/-- The random group and its percentage. -/
def readInclusion (nests : Bool) (s : List Char) :
    Except BlockFault (Option String × Option UInt8 × List Char) := do
  match s with
  | '/' :: _ => .error .percentWithoutGroup
  | '?' :: rest =>
    let (raw, after) ← part nests 0 rest
    let group := some (String.ofList (Text.unescape raw))
    match after with
    | '#' :: _ => .error .variationAfterGroup
    | '?' :: _ => .error .secondGroup
    | '/' :: rest =>
      let (digits, after) ← part nests 0 rest
      match percent? digits with
      | some p => .ok (group, some p, after)
      | none => .error .percentOutOfRange
    | _ => .ok (group, none, after)
  | _ => .ok (none, none, s)

/-- Whether the text is recased at random. -/
def readCasing : List Char → Bool × List Char
  | '&' :: rest => (true, rest)
  | s => (false, s)

/-- A block from what stands inside its brackets. -/
def ofInside (kind : Option Kind) (inner : List Char) : Except BlockFault Block := do
  let nests := kind.isNone
  let (casing, s) := readCasing inner
  let (name, s) ← readName nests s
  let (variation, s) ← readVariation nests s
  let (group, percent, s) ← readInclusion nests s
  if s.isEmpty then .ok ⟨kind, .ofList name, ⟨casing, variation, group, percent⟩⟩
  else .error .textBeforeClosing

theorem ofInside_length {kind : Option Kind} {inner : List Char} {b : Block}
    (h : ofInside kind inner = .ok b) : b.name.length ≤ inner.length := by
  have hc : (readCasing inner).2.length ≤ inner.length := by
    unfold readCasing
    split <;> simp
  simp only [ofInside, bind, Except.bind] at h
  split at h
  · simp at h
  · next hn =>
    have := readName_length hn
    split at h
    · simp at h
    · split at h
      · simp at h
      · split at h
        · simp only [Except.ok.injEq] at h
          rw [← h]
          simp only [String.length_ofList]
          omega
        · simp at h

theorem inside?_length {s inner : List Char} (h : inside? s = some inner) :
    inner.length < s.length := by
  unfold inside? at h
  dsimp only at h
  split at h
  · next hl =>
    cases s with
    | nil => simp at hl
    | cons c s =>
      simp only [Option.some.injEq] at h
      simp [← h]
  · simp at h

def read (text : List Char) : Outcome Block := do
  let kind ← kind? text
  let malformed := Error.malformed (.ofList text)
  match if kind.isNone then text else text.tail with
  | '[' :: rest =>
    match inside? rest with
    | none => .error (malformed .noClosingBracket)
    | some inner =>
      match ofInside kind inner with
      | .error fault => .error (malformed fault)
      | .ok b => .ok b
  | _ => .error (malformed .noOpeningBracket)

theorem read_length {text : List Char} {b : Block} (h : read text = .ok b) :
    b.name.length < text.length := by
  simp only [read, bind, Except.bind] at h
  split at h
  · simp at h
  · split at h
    · next s hs =>
      split at h
      · simp at h
      · next inner hi =>
        have := inside?_length hi
        split at h
        · simp at h
        · next ho =>
          have := ofInside_length ho
          have : s.length < text.length := by
            have hl := congrArg List.length hs
            split at hl <;> simp at hl <;> omega
          simp only [Except.ok.injEq] at h
          rw [← h]
          omega
    · simp at h

end Block
end Phrasebook
