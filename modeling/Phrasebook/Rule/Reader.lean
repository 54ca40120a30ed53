import Phrasebook.Rule.Block

/-!
# Reading rules

A rule's text is cut into words at blanks. A block starts wherever an unescaped opening bracket
stands, with a sigil directly before it or not, and reaches to the bracket that closes it. The body
of an inline group is read as a rule of its own.
-/
namespace Phrasebook

/-- The sigil and bracket that open a block at the start of a text, and the text after them. -/
def opening? : List Char → Option (List Char × List Char)
  | '[' :: rest => some (['['], rest)
  | c :: '[' :: rest => if (Kind.ofSigil? c).isSome then some ([c, '['], rest) else none
  | _ => none

theorem opening?_length {s marks rest : List Char} (h : opening? s = some (marks, rest)) :
    0 < marks.length ∧ marks.length + rest.length = s.length := by
  unfold opening? at h
  split at h
  · simp only [Option.some.injEq, Prod.mk.injEq] at h
    obtain ⟨rfl, rfl⟩ := h
    simp; omega
  · split at h
    · simp only [Option.some.injEq, Prod.mk.injEq] at h
      obtain ⟨rfl, rfl⟩ := h
      simp; omega
    · simp at h
  · simp at h

/-- The word read so far, latest character first, as a piece unless it is empty. -/
def flush (word : List Char) (pieces : List Piece) : List Piece :=
  if word.isEmpty then pieces else .word (.ofList word.reverse) :: pieces

/-- The pieces of the rest `s` of a rule's `text`, inside the word read so far. -/
def readPieces (text : String) (word : List Char) (s : List Char) : Outcome (List Piece) :=
  match s with
  | [] => .ok (flush word [])
  | '\\' :: c :: rest => readPieces text (c :: word) rest
  | c :: rest =>
    match _opens : opening? (c :: rest) with
    | some (marks, inside) =>
      match _closes : Text.throughClosing? 0 inside with
      | none => .error (.malformed text .unclosed)
      | some (inner, after) =>
        match _reads : Block.read (marks ++ inner) with
        | .error e => .error e
        | .ok b =>
          match b.kind with
          | some kind =>
            (readPieces text [] after).map fun later =>
              flush word (.reference kind b.name b.modifiers :: later)
          | none =>
            match readPieces b.name [] b.name.toList with
            | .error e => .error e
            | .ok [] => .error (.badLine b.name .emptyRule)
            | .ok pieces =>
              (readPieces text [] after).map fun later =>
                flush word (.group pieces none b.modifiers :: later)
    | none =>
      if Text.isBlank c then (readPieces text [] rest).map (flush word)
      else if c = ']' then .error (.malformed text .strayClosing)
      else readPieces text (c :: word) rest
termination_by s.length
decreasing_by
  · simp only [List.length_cons]
    omega
  · have := opening?_length _opens
    have := Text.throughClosing?_length _closes
    omega
  · have shorter := Block.read_length _reads
    rw [List.length_append] at shorter
    have := opening?_length _opens
    have := Text.throughClosing?_length _closes
    rw [String.length_toList]
    omega
  · have := opening?_length _opens
    have := Text.throughClosing?_length _closes
    omega
  all_goals simp only [List.length_cons]; omega

namespace Rule

def read (text : String) : Outcome Rule := do
  let pieces ← readPieces text [] text.toList
  if pieces.isEmpty then .error (.badLine text .emptyRule) else .ok { pieces }

/-- A rule of a slot: its value follows the first equals sign that stands outside of brackets. -/
def readSlot (text : String) : Outcome Rule :=
  match Text.splitOutside? '=' 0 text.toList with
  | none => read text
  | some (phrase, value) => do
    let value := Text.unescape (Text.trim value)
    if value.isEmpty then .error (.badLine text .emptySlotValue)
    else
      let rule ← read (.ofList (Text.trimEnd phrase))
      .ok { rule with value := some (.ofList value) }

def readFor (kind : Kind) (text : String) : Outcome Rule :=
  if kind = .slot then readSlot text else read text

end Rule
end Phrasebook
