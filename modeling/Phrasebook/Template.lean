import Phrasebook.Files
import Phrasebook.Store
import Phrasebook.Rule.Reader
import Phrasebook.Template.Declaration
import Phrasebook.Text.Lines

/-!
# Templates

A template is read line by line. An indented line is a rule of the declaration above it, a line that
starts with a sigil declares, and one that starts with a bar includes another file, whose path is
relative to the directory of the including one. A declaration is complete, and only then declared,
where the next unindented line or the end of the file comes. A file cannot include itself, nor one
that includes it, so that every chain of includes ends.
-/
namespace Phrasebook

/-- A template line by what it is for, prepared and trimmed. -/
inductive TemplateLine where
  | blank
  | rule (text : List Char)
  | inclusion (target : List Char)
  | declaration (text : List Char)
  | unknown (text : List Char)
deriving DecidableEq, Repr

def TemplateLine.read (raw : List Char) : TemplateLine :=
  let line := Text.prepare raw
  if Text.allBlank line then .blank
  else
    match line with
    | [] => .blank
    | c :: rest =>
      if Text.isBlank c then .rule (Text.trim line)
      else if c = '|' then .inclusion (Text.trim rest)
      else if (Kind.ofSigil? c).isSome then .declaration line
      else .unknown line

/-- A declaration whose rules are being read, and the line it starts at. -/
structure Pending where
  declaration : Declaration
  line : Nat

namespace Pending

def addRule (p : Pending) (r : Rule) : Pending :=
  let d := p.declaration
  let v := d.variation
  { p with declaration := { d with variation := { v with rules := v.rules ++ [r] } } }

/-- Declares what is pending, if anything is. -/
def settle (origin : String) (store : Store) : Option Pending → Outcome Store
  | none => .ok store
  | some p => (store.declare p.declaration).mapError (.locate origin p.line)

end Pending

namespace Template

/-- The name of a template that is not a file. -/
def inlineName : String := "<inline>"

/-- The files that there are. -/
def places (fs : Files) : List Place := fs.entries.map Prod.fst

theorem mem_places_of_textAt {fs : Files} {p : Place} {text : String}
    (h : fs.textAt p = .ok text) : p ∈ places fs := by
  cases reads : fs.bytesAt p with
  | error e => simp [Files.textAt, reads, bind, Except.bind] at h
  | ok content =>
    obtain ⟨-, t, there⟩ := Files.bytesAt_eq_ok.mp reads
    cases p with
    | nil => simp [Files.get?] at there
    | cons name p =>
      obtain ⟨before, after, found, -⟩ := List.lookup_eq_some_iff.mp there
      exact List.mem_map.mpr ⟨_, found ▸ List.mem_append_right _ List.mem_cons_self, rfl⟩

mutual

/-- Adds what a file declares to a store. The chain holds the files that include it, innermost
first. -/
def addFile (fs : Files) (chain : List Place) (path : String) (store : Store) : Outcome Store :=
  match fs.locate path with
  | .error fault => .error (.notIncluded path (.unreachable fault))
  | .ok place =>
    if _absent : place ∈ chain then .error (.notIncluded path .circular)
    else
      match _reads : fs.textAt place with
      | .error fault => .error (.file fault)
      | .ok text =>
        addLines fs (place :: chain) path (Place.written place.tail) 1 (Text.lines text.toList) none
          store
termination_by (unvisited (places fs) chain, 0)
decreasing_by
  exact Prod.Lex.left _ _ (unvisited_cons_lt (mem_places_of_textAt _reads) _absent)

/-- Adds what the lines of a text declare, from line `n` on. Includes are relative to `base`. -/
def addLines (fs : Files) (chain : List Place) (origin base : String) (n : Nat)
    (raws : List (List Char)) (pending : Option Pending) (store : Store) : Outcome Store :=
  match raws with
  | [] => Pending.settle origin store pending
  | raw :: rest =>
    match TemplateLine.read raw with
    | .blank => addLines fs chain origin base (n + 1) rest pending store
    | .rule text =>
      match pending with
      | none => .error (.locate origin n (.badLine (.ofList text) .orphanRule))
      | some p =>
        match Rule.readFor p.declaration.kind (.ofList text) with
        | .error e => .error (.locate origin n e)
        | .ok r => addLines fs chain origin base (n + 1) rest (some (p.addRule r)) store
    | .inclusion target =>
      match Pending.settle origin store pending with
      | .error e => .error e
      | .ok store =>
        if target.isEmpty then .error (.locate origin n (.badLine "|" .missingFileName))
        else
          match addFile fs chain (Path.join base (.ofList target)) store with
          | .error e => .error (.locate origin n e)
          | .ok store => addLines fs chain origin base (n + 1) rest none store
    | .declaration text =>
      match Pending.settle origin store pending with
      | .error e => .error e
      | .ok store =>
        match Declaration.read text with
        | .error e => .error (.locate origin n e)
        | .ok d => addLines fs chain origin base (n + 1) rest (some ⟨d, n⟩) store
    | .unknown text =>
      match Pending.settle origin store pending with
      | .error e => .error e
      | .ok _ => .error (.locate origin n (.badLine (.ofList text) .unknownLine))
termination_by (unvisited (places fs) chain, raws.length + 1)
decreasing_by
  · exact Prod.Lex.right _ (by simp only [List.length_cons]; omega)
  · exact Prod.Lex.right _ (by simp only [List.length_cons]; omega)
  · exact Prod.Lex.right _ (by omega)
  · exact Prod.Lex.right _ (by simp only [List.length_cons]; omega)
  · exact Prod.Lex.right _ (by simp only [List.length_cons]; omega)

end

/-- What a template text declares. Its includes are relative to the current directory. -/
def read (fs : Files) (text : String) : Outcome Store :=
  addLines fs [] inlineName "." 1 (Text.lines text.toList) none ∅

/-- What a template file and those that it includes declare. -/
def load (fs : Files) (path : String) : Outcome Store := addFile fs [] path ∅

end Template
end Phrasebook
