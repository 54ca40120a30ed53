import Phrasebook.Fragment

/-!
# Reports

Examples as a JSON document, one field a line, indented by two spaces a level. A quote, a backslash
and the characters below the space are escaped, the common ones of these by a letter of their own;
all else is written as it is.
-/
namespace Phrasebook

/-- A tree of what a report holds: texts, lists, and records with their fields in order. -/
inductive Report where
  | text (s : String)
  | list (items : List Report)
  | record (fields : List (String × Report))

namespace Report

def hexDigit (n : Nat) : Char := "0123456789abcdef".toList.getD n '0'

def escapeChar (c : Char) : List Char :=
  if c = '"' then ['\\', '"']
  else if c = '\\' then ['\\', '\\']
  else if c = '\n' then ['\\', 'n']
  else if c = '\r' then ['\\', 'r']
  else if c = '\t' then ['\\', 't']
  else if c.toNat = 0x08 then ['\\', 'b']
  else if c.toNat = 0x0C then ['\\', 'f']
  else if c.toNat < 0x20 then
    ['\\', 'u', '0', '0', hexDigit (c.toNat / 16), hexDigit (c.toNat % 16)]
  else [c]

def quoted (s : String) : List Char := '"' :: s.toList.flatMap escapeChar ++ ['"']

/-- The line break before an item at some level. -/
def newLine (level : Nat) : List Char := '\n' :: List.replicate (2 * level) ' '

mutual

/-- A value that starts at a level of indentation; an empty list or record stays on its line. -/
def written (level : Nat) : Report → List Char
  | text s => quoted s
  | list [] => ['[', ']']
  | list (item :: items) =>
    '[' :: newLine (level + 1) ++ written (level + 1) item ++ writtenItems (level + 1) items ++
      newLine level ++ [']']
  | record [] => ['{', '}']
  | record (field :: fields) =>
    '{' :: newLine (level + 1) ++ writtenField (level + 1) field ++
      writtenFields (level + 1) fields ++ newLine level ++ ['}']

/-- The items after the first one. -/
def writtenItems (level : Nat) : List Report → List Char
  | [] => []
  | item :: items => ',' :: newLine level ++ written level item ++ writtenItems level items

def writtenField (level : Nat) : String × Report → List Char
  | (name, value) => quoted name ++ [':', ' '] ++ written level value

/-- The fields after the first one. -/
def writtenFields (level : Nat) : List (String × Report) → List Char
  | [] => []
  | field :: fields =>
    ',' :: newLine level ++ writtenField level field ++ writtenFields level fields

end

def ofEntity (e : Entity) : Report :=
  .record [("slot", .text e.slot), ("text", .text e.text), ("value", .text e.value)]

def ofExample (e : Example) : Report :=
  .record [("intent", .text e.intent), ("text", .text e.text),
    ("entities", .list (e.entities.map ofEntity))]

def ofExamples (examples : List Example) : Report := .list (examples.map ofExample)

/-- The document for some examples. -/
def document (examples : List Example) : String := .ofList ((ofExamples examples).written 0)

end Report
end Phrasebook
