import Phrasebook.Error

/-!
# Paths

A path is text: names with slashes between them, read from the root if it starts with a slash and
from the current directory otherwise. Empty names and single dots change nothing, two dots lead to
the parent. The last name of a path is the file's name, and what follows the last dot of it is its
extension; a dot at the very start of a name begins no extension.
-/
namespace Phrasebook.Path

/-- The path of a target as seen from a directory. -/
def join (base target : String) : String :=
  if target.startsWith "/" || base.isEmpty then target
  else if base.endsWith "/" then base ++ target
  else base ++ "/" ++ target

/-- What stands between the slashes, empty names and dots included. -/
def parts (path : String) : List String := (path.toList.splitOn '/').map String.ofList

def names (path : String) : List String := (parts path).filter fun n => n ≠ "" && n ≠ "."

/-- The directories that a path leads through, outermost first. -/
def ancestors (path : String) : List String :=
  let root := if path.startsWith "/" then "/" else ""
  let ns := names path
  (List.range ns.length).tail.map fun n => root ++ "/".intercalate (ns.take n)

/-- A reversed path without the slashes and single dots at its end. -/
def skipTrailing : List Char → List Char
  | '/' :: rest => skipTrailing rest
  | ['.'] => []
  | '.' :: '/' :: rest => skipTrailing rest
  | s => s

/-- What stands before a path's last name, that name, and the slashes and dots that follow it. -/
def aroundName? (path : String) : Option (String × String × String) :=
  let reversed := path.toList.reverse
  let rest := skipTrailing reversed
  let name := String.ofList (rest.takeWhile (· ≠ '/')).reverse
  if name = "" || name = ".." then none
  else some (.ofList (rest.dropWhile (· ≠ '/')).reverse, name,
    .ofList (reversed.take (reversed.length - rest.length)).reverse)

/-- A file's name cut at its last dot. -/
def cutName (name : String) : String × Option String :=
  let reversed := name.toList.reverse
  let before := reversed.dropWhile (· ≠ '.')
  if before.length ≤ 1 then (name, none)
  else (.ofList before.tail.reverse, some (.ofList (reversed.takeWhile (· ≠ '.')).reverse))

def stem (path : String) : Outcome String :=
  match aroundName? path with
  | some (_, name, _) => .ok (cutName name).1
  | none => .error (.file .noName)

/-- The path beside this one with another extension. The file name `..x` has a stem that is a single
dot: without its extension it names the parent directory, which takes no extension. -/
def sibling (path extension : String) : Outcome String :=
  match aroundName? path with
  | none => .error (.file .noSourceName)
  | some (before, name, after) =>
    let (stem, old) := cutName name
    if stem = "." && old.isSome && after = "" then .ok (before ++ "..")
    else if extension = "" then .ok (before ++ stem)
    else .ok (before ++ stem ++ "." ++ extension)

end Phrasebook.Path
