import Phrasebook.Cache.Varint
import Phrasebook.Store
import Phrasebook.Text.Utf8

/-!
# Layout of cached stores

A store is written as its tables of aliases, slots and intents. Texts, lists and tables start with
their length, an optional value with a byte that says whether it is there, and a value of several
forms with the number of its form. Nothing marks the end: bytes after the value are not looked at.
-/
namespace Phrasebook.Cache

/-- Text, as the length and the bytes of its UTF-8 form. -/
def writeText (s : String) : List UInt8 :=
  Varint.encode (Text.utf8 s).length ++ Text.utf8 s

def readText : Reader String := do
  let size ← Varint.decode64
  let bytes ← get
  let text := bytes.take size
  if text.length < size then failure
  else
    set (bytes.drop size)
    match Text.ofUtf8? text with
    | some s => return s
    | none => failure

def writeFlag (b : Bool) : List UInt8 := [if b then 1 else 0]

def readFlag : Reader Bool := do
  match ← readByte with
  | 0 => return false
  | 1 => return true
  | _ => failure

def writeOption {α : Type} (write : α → List UInt8) : Option α → List UInt8
  | none => writeFlag false
  | some a => writeFlag true ++ write a

def readOption {α : Type} (read : Reader α) : Reader (Option α) := do
  if ← readFlag then return some (← read) else return none

def readCount : Reader UInt64 := return .ofNat (← Varint.decode64)

def writeAll {α : Type} (write : α → List UInt8) (l : List α) : List UInt8 :=
  Varint.encode l.length ++ l.flatMap write

def readMany {α : Type} (read : Reader α) : Nat → Reader (List α)
  | 0 => return []
  | n + 1 => return (← read) :: (← readMany read n)

def readAll {α : Type} (read : Reader α) : Reader (List α) := do
  readMany read (← Varint.decode64)

def kindNumber : Kind → Nat
  | .alias => 0
  | .slot => 1
  | .intent => 2

def kindNumbered : Nat → Option Kind
  | 0 => some .alias
  | 1 => some .slot
  | 2 => some .intent
  | _ => none

def writeModifiers (m : Modifiers) : List UInt8 :=
  writeFlag m.casing ++ writeOption writeText m.variation ++ writeOption writeText m.group ++
    writeOption (fun p => [p]) m.percent

def readModifiers : Reader Modifiers := do
  let casing ← readFlag
  let variation ← readOption readText
  let group ← readOption readText
  let percent ← readOption readByte
  return ⟨casing, variation, group, percent⟩

mutual

def writePiece : Piece → List UInt8
  | .word text => Varint.encode 0 ++ writeText text
  | .group pieces value m =>
    Varint.encode 1 ++ Varint.encode pieces.length ++ writePieces pieces ++
      writeOption writeText value ++ writeModifiers m
  | .reference kind name m =>
    Varint.encode (2 + kindNumber kind) ++ writeText name ++ writeModifiers m

def writePieces : List Piece → List UInt8
  | [] => []
  | p :: rest => writePiece p ++ writePieces rest

end

/-- A piece whose groups are nested at most `depth` deep. -/
def readPiece : Nat → Reader Piece
  | 0 => failure
  | depth + 1 => do
    match ← Varint.decode32 with
    | 0 => return .word (← readText)
    | 1 =>
      let pieces ← readAll (readPiece depth)
      let value ← readOption readText
      return .group pieces value (← readModifiers)
    | n + 2 =>
      match kindNumbered n with
      | none => failure
      | some kind =>
        let name ← readText
        return .reference kind name (← readModifiers)

def writeRule (r : Rule) : List UInt8 :=
  Varint.encode r.pieces.length ++ writePieces r.pieces ++ writeOption writeText r.value

def readRule (depth : Nat) : Reader Rule := do
  let pieces ← readAll (readPiece depth)
  return ⟨pieces, ← readOption readText⟩

def writeVariation (v : Variation) : List UInt8 :=
  writeOption writeText v.name ++ writeOption (fun n => Varint.encode n.toNat) v.count ++
    writeAll writeRule v.rules

def readVariation (depth : Nat) : Reader Variation := do
  let name ← readOption readText
  let count ← readOption readCount
  return ⟨name, count, ← readAll (readRule depth)⟩

def writeDefinition (d : Definition) : List UInt8 :=
  writeText d.name ++ Varint.encode (kindNumber d.kind) ++ writeFlag d.casing ++
    writeAll writeVariation d.variations

def readDefinition (depth : Nat) : Reader Definition := do
  let name ← readText
  match kindNumbered (← Varint.decode32) with
  | none => failure
  | some kind =>
    let casing ← readFlag
    return ⟨name, kind, casing, ← readAll (readVariation depth)⟩

def writeTable (t : Table Definition) : List UInt8 :=
  writeAll (fun e => writeText e.1 ++ writeDefinition e.2) t.entries

/-- Of two entries with the same name the later one counts. -/
def readTable (depth : Nat) : Reader (Table Definition) := do
  return .ofList (← readAll (return (← readText, ← readDefinition depth)))

def encode (s : Store) : List UInt8 :=
  writeTable s.aliases ++ writeTable s.slots ++ writeTable s.intents

def readStore (depth : Nat) : Reader Store :=
  return ⟨← readTable depth, ← readTable depth, ← readTable depth⟩

/-- Groups cannot be nested deeper than there are bytes. -/
def decode (bytes : List UInt8) : Option Store := (readStore bytes.length bytes).map Prod.fst

end Phrasebook.Cache
