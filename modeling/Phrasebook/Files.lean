import Phrasebook.Files.Path
import Phrasebook.Text.Utf8

/-!
# Files

A tree of files and directories, with the time at which each was last changed. Paths are followed
name by name from the current directory or the root, and only directories can be walked through. A
clock moves on with every change, so that a later change has a later time.

Some of what is there may not be read, and some not written. The program gets these rights for what
it makes itself, and changes no others. There are no links, every directory may be walked through,
and a disk is never full.
-/
namespace Phrasebook

/-- Where an entry is: its name and those of the directories around it, innermost first. -/
abbrev Place := List String

def Place.written (p : Place) : String := "/" ++ "/".intercalate p.reverse

/-- Times count nanoseconds from the epoch. -/
inductive Entry where
  | file (content : List UInt8) (changed : Nat)
  | directory (changed : Nat)
deriving Repr

namespace Entry

def changed : Entry → Nat
  | file _ t => t
  | directory t => t

@[simp] theorem changed_file (content : List UInt8) (t : Nat) : (file content t).changed = t := rfl

@[simp] theorem changed_directory (t : Nat) : (directory t).changed = t := rfl

def isDirectory : Entry → Bool
  | file _ _ => false
  | directory _ => true

/-- The bytes of a file. -/
def bytes : Entry → Except FileFault (List UInt8)
  | file content _ => .ok content
  | directory _ => .error .isDirectory

end Entry

structure Files where
  entries : List (Place × Entry) := []
  current : Place := []
  clock : Nat := 0
  /-- Where the program may not see what is in a file or in a directory. -/
  unreadable : List Place := []
  /-- Where it may not change a file, or make something new in a directory. -/
  unwritable : List Place := []

namespace Files

/-- The root is always there. -/
def get? (fs : Files) (p : Place) : Option Entry :=
  if p.isEmpty then some (.directory 0) else fs.entries.lookup p

def putEntry (p : Place) (e : Entry) : List (Place × Entry) → List (Place × Entry)
  | [] => [(p, e)]
  | f :: rest => if p = f.1 then (p, e) :: rest else f :: putEntry p e rest

theorem lookup_putEntry (p q : Place) (e : Entry) (l : List (Place × Entry)) :
    (putEntry p e l).lookup q = if q = p then some e else l.lookup q := by
  induction l with
  | nil => grind [putEntry]
  | cons f l ih => grind [putEntry]

def put (fs : Files) (p : Place) (e : Entry) : Files :=
  { fs with entries := putEntry p e fs.entries }

theorem get?_put (fs : Files) {p : Place} (q : Place) (e : Entry) (hp : p ≠ []) :
    (fs.put p e).get? q = if q = p then some e else fs.get? q := by
  cases q with
  | nil => simp [get?, Ne.symm hp]
  | cons name q => simp [get?, put, lookup_putEntry]

def mayRead (fs : Files) (p : Place) : Bool := p ∉ fs.unreadable

def mayWrite (fs : Files) (p : Place) : Bool := p ∉ fs.unwritable

/-- Gives both rights to a place. -/
def grant (fs : Files) (p : Place) : Files :=
  { fs with
    unreadable := fs.unreadable.filter (· ≠ p)
    unwritable := fs.unwritable.filter (· ≠ p) }

theorem mayRead_grant {fs : Files} {p : Place} (q : Place) (may : fs.mayRead p = true) :
    (fs.grant q).mayRead p = true := by
  simp_all [mayRead, grant]

/-- The longest name, and the longest path, that is ever looked up, in bytes. -/
def maxName : Nat := 255

def maxPath : Nat := 4095

def step (fs : Files) (p : Place) (part : String) : Except FileFault Place :=
  match fs.get? p with
  | some (.directory _) =>
    if part = "" || part = "." then .ok p
    else if part = ".." then .ok p.tail
    else if part.utf8ByteSize > maxName then .error .nameTooLong
    else if (fs.get? (part :: p)).isSome then .ok (part :: p)
    else .error .notFound
  | some (.file _ _) => .error .notDirectory
  | none => .error .notFound

def walk (fs : Files) (p : Place) (parts : List String) : Except FileFault Place :=
  parts.foldlM fs.step p

def start (fs : Files) (path : String) : Place := if path.startsWith "/" then [] else fs.current

def checkPath (path : String) : Except FileFault Unit :=
  if path.toList.contains '\x00' then .error .nulInPath
  else if path.isEmpty then .error .notFound
  else if path.utf8ByteSize > maxPath then .error .nameTooLong
  else .ok ()

/-- Where a path leads. -/
def locate (fs : Files) (path : String) : Except FileFault Place := do
  checkPath path
  fs.walk (fs.start path) (Path.parts path)

def find (fs : Files) (path : String) : Except FileFault Entry := do
  let p ← fs.locate path
  match fs.get? p with
  | some e => .ok e
  | none => .error .notFound

def isDirectory (fs : Files) (path : String) : Bool :=
  match fs.find path with
  | .ok e => e.isDirectory
  | .error _ => false

def bytesAt (fs : Files) (p : Place) : Except FileFault (List UInt8) :=
  match fs.get? p with
  | none => .error .notFound
  | some e => if fs.mayRead p then e.bytes else .error .denied

theorem bytesAt_eq_ok {fs : Files} {p : Place} {content : List UInt8} :
    fs.bytesAt p = .ok content ↔
      fs.mayRead p = true ∧ ∃ t, fs.get? p = some (.file content t) := by
  unfold bytesAt
  cases fs.get? p with
  | none => simp
  | some e => cases e <;> cases fs.mayRead p <;> simp [Entry.bytes]

def textAt (fs : Files) (p : Place) : Except FileFault String := do
  match Text.ofUtf8? (← fs.bytesAt p) with
  | some text => .ok text
  | none => .error .invalidText

def bytes (fs : Files) (path : String) : Except FileFault (List UInt8) := do
  fs.bytesAt (← fs.locate path)

/-- The directory that a path's last name is in, that name, and whether a slash follows it. A path
to the root, or one that ends in dots, has no name that could be created. -/
def slot (fs : Files) (path : String) : Except FileFault (Place × Option String × Bool) := do
  checkPath path
  let reversed := (Path.parts path).reverse
  match reversed.dropWhile (· = "") with
  | [] => .ok (fs.start path, none, true)
  | last :: before =>
    let p ← fs.walk (fs.start path) before.reverse
    match fs.get? p with
    | some (.directory _) =>
      .ok (p, if last = "." || last = ".." then none else some last, reversed.head? = some "")
    | some (.file _ _) => .error .notDirectory
    | none => .error .notFound

def tick (fs : Files) : Nat × Files := (fs.clock + 1, { fs with clock := fs.clock + 1 })

/-- A new entry changes the directory that it is made in. -/
def create (fs : Files) (parent : Place) (name : String) (make : Nat → Entry) : Files :=
  let (now, fs) := fs.tick
  let fs := (fs.put (name :: parent) (make now)).grant (name :: parent)
  if parent.isEmpty then fs else fs.put parent (.directory now)

/-- Where the file of a path is or would be: its place, and its content if it is there. -/
def destination (fs : Files) (path : String) :
    Except FileFault (Place × String × Option (List UInt8)) := do
  match ← fs.slot path with
  | (_, none, _) => .error .isDirectory
  | (_, some _, true) => .error .isDirectory
  | (p, some name, false) =>
    if name.utf8ByteSize > maxName then .error .nameTooLong
    else
      match fs.get? (name :: p) with
      | none => .ok (p, name, none)
      | some (.file content _) => .ok (p, name, some content)
      | some (.directory _) => .error .isDirectory

/-- Gives the file of a path the content made from the one that it has. -/
def update (fs : Files) (path : String) (content : List UInt8 → List UInt8) :
    Except FileFault Files := do
  match ← fs.destination path with
  | (p, name, none) =>
    if fs.mayWrite p then .ok (fs.create p name (.file (content []))) else .error .denied
  | (p, name, some old) =>
    if fs.mayWrite (name :: p) then
      let (now, fs) := fs.tick
      .ok (fs.put (name :: p) (.file (content old) now))
    else .error .denied

def write (fs : Files) (path : String) (content : List UInt8) : Except FileFault Files :=
  fs.update path fun _ => content

/-- Adds to the end of a file, which is created if it is missing. -/
def append (fs : Files) (path : String) (content : List UInt8) : Except FileFault Files :=
  fs.update path (· ++ content)

def setChanged (fs : Files) (path : String) (time : Nat) : Except FileFault Files := do
  let p ← fs.locate path
  match fs.get? p with
  | some (.file content _) => .ok (fs.put p (.file content time))
  | some (.directory _) => .ok (if p.isEmpty then fs else fs.put p (.directory time))
  | none => .error .notFound

def createDirectory (fs : Files) (path : String) : Except FileFault Files := do
  match ← fs.slot path with
  | (_, none, _) => .error .alreadyExists
  | (p, some name, _) =>
    if name.utf8ByteSize > maxName then .error .nameTooLong
    else if (fs.get? (name :: p)).isSome then .error .alreadyExists
    else if fs.mayWrite p then .ok (fs.create p name .directory)
    else .error .denied

/-- A directory that is there already is as good as a new one. -/
def settleDirectory (fs : Files) (path : String) : Except FileFault Files :=
  match fs.createDirectory path with
  | .ok fs => .ok fs
  | .error e => if fs.isDirectory path then .ok fs else .error e

def settleAll (fs : Files) : List String → Files × Option FileFault
  | [] => (fs, none)
  | path :: rest =>
    match fs.settleDirectory path with
    | .ok fs => fs.settleAll rest
    | .error e => (fs, some e)

/-- Creates a directory and, if need be, those around it. What was created before an error stays. -/
def createDirectories (fs : Files) (path : String) : Files × Option FileFault :=
  if path.isEmpty then (fs, none)
  else
    match fs.settleDirectory path with
    | .ok fs => (fs, none)
    | .error .notFound => fs.settleAll (Path.ancestors path ++ [path])
    | .error e => (fs, some e)

/-- Whether a file made from a source is missing or older than it. -/
def isStale (fs : Files) (derived source : String) : Except FileFault Bool := do
  let s ← fs.find source
  match fs.find derived with
  | .ok d => .ok (d.changed < s.changed)
  | .error _ => .ok true

/-- The stems of the files in a directory that have the given extension, in order. -/
def list (fs : Files) (directory extension : String) : Except FileFault (List String) := do
  let p ← fs.locate directory
  match fs.get? p with
  | some (.directory _) =>
    let stems := fs.entries.filterMap fun
      | (name :: q, .file _ _) =>
        let (stem, found) := Path.cutName name
        if q = p && found = some extension then some stem else none
      | _ => none
    if fs.mayRead p then .ok (stems.mergeSort fun a b => a ≤ b) else .error .denied
  | some (.file _ _) => .error .notDirectory
  | none => .error .notFound

/-- The files whose content is not what it was before, by place. -/
def changedSince (fs old : Files) : List (Place × List UInt8) :=
  fs.entries.filterMap fun
    | (p, .file content _) =>
      match old.get? p with
      | some (.file before _) => if before == content then none else some (p, content)
      | _ => some (p, content)
    | _ => none

end Files
end Phrasebook
