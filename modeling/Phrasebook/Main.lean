import Phrasebook.Program.Run

/-!
# The command

What a run can touch is read from the disk into `Files`, the run itself goes as `Program.run` does,
and what it changed is written back. An interactive session reads and writes line by line. Whether
something new can be made in a directory only shows when it is.
-/
namespace Phrasebook.Console

/-- The place of a path, its names taken one by one. -/
def placeOf (fs : Files) (path : String) : Place :=
  (Path.parts path).foldl
    (fun p part =>
      if part = "" || part = "." then p else if part = ".." then p.tail else part :: p)
    (fs.start path)

/-- Whether an action is possible. -/
def possible {α : Type} (act : IO α) : IO Bool := do
  try
    discard act
    return true
  catch _ => return false

/-- Adds what the disk has at a place, and what may be done with it. -/
def survey (fs : Files) (p : Place) : IO Files := do
  try
    let found ← IO.FS.realPath p.written
    let data ← found.metadata
    let time := data.modified.sec.toNat * 1000000000 + data.modified.nsec.toNat
    if data.type matches .dir then
      let listed ← possible found.readDir
      return { fs.put p (.directory time) with
        unreadable := if listed then fs.unreadable else p :: fs.unreadable }
    let content ← try pure (some (← IO.FS.readBinFile found)) catch _ => pure none
    let writable ← possible (IO.FS.Handle.mk found .append)
    return { fs.put p (.file ((content.map (·.data.toList)).getD []) time) with
      unreadable := if content.isSome then fs.unreadable else p :: fs.unreadable
      unwritable := if writable then fs.unwritable else p :: fs.unwritable }
  catch _ => return fs

/-- Adds what is at a path, and the directories that lead there. -/
def look (fs : Files) (path : String) : IO Files := do
  let p := placeOf fs path
  let mut fs := fs
  for depth in (List.range p.length).reverse do
    fs ← survey fs (p.drop depth)
  return fs

/-- Adds a template and those that it includes. -/
partial def lookTemplate (fs : Files) (path : String) : IO Files := do
  let p := placeOf fs path
  if (fs.get? p).isSome then return fs
  let mut fs ← look fs path
  if let .ok text := fs.textAt p then
    for raw in Text.lines text.toList do
      if let .inclusion target := TemplateLine.read raw then
        fs ← lookTemplate fs (Path.join (Place.written p.tail) (.ofList target))
  return fs

/-- Adds what a run with these arguments reads or writes. -/
def prepare (a : Arguments) (fs : Files) : IO Files := do
  let mut fs ← lookTemplate fs a.template
  if let .ok cache := Path.sibling a.template Cache.fileExtension then fs ← look fs cache
  fs ← look fs a.output
  if let .ok store := (Program.load a fs).1 then
    for intent in store.intentNames do fs ← look fs (Program.reportPath a.output intent)
  return fs

/-- Makes the disk agree with the files after a run. -/
def keep (before after : Files) : IO Unit := do
  for (p, e) in after.entries do
    if e.isDirectory && (before.get? p).isNone then IO.FS.createDirAll p.written
  for (p, content) in after.changedSince before do
    IO.FS.writeBinFile p.written ⟨content.toArray⟩

partial def converse (s : Session) (fs : Files) : IO UInt32 := do
  let output ← IO.getStdout
  output.putStr Program.prompt
  output.flush
  let raw ← (← IO.getStdin).getLine
  if raw.isEmpty then return 0
  let line := Program.trimmedEnd raw.toList
  let mut fs := fs
  if let .ok ⟨_, some path⟩ := CommandLine.read line then fs ← look fs path
  let turn := s.turn fs line
  try keep fs turn.files
  catch e =>
    IO.eprint (Program.complaint e.toString)
    return ← converse turn.session fs
  output.putStr turn.printed
  match turn.outcome with
  | .ok true => return 0
  | .ok false => converse turn.session turn.files
  | .error e =>
    IO.eprint (Program.complaint e.message)
    converse turn.session turn.files
  | .overflow => return (Program.Ending.stopped turn.files).code.toUInt32

def usage : String :=
  "usage: phrasebook [-o DIRECTORY] [-s SEED] [-i] [--cache] [--max-enumeration COUNT] " ++
    "[--fallback-count COUNT] [--dedup-factor COUNT] [--max-count COUNT] TEMPLATE\n"

def version : String := "phrasebook 0.1.0\n"

def run (a : Arguments) (settings : Settings) : IO UInt32 := do
  let entropy := (← IO.getRandomBytes 8).foldl (fun n b => n * 256 + b.toUInt64) 0
  let here ← IO.currentDir
  let fs ← prepare a { current := placeOf {} here.toString }
  let (loaded, after) := Program.load a fs
  -- a cache that cannot be written is done without
  let fs ← if ← possible (keep fs after) then pure after else pure fs
  match loaded with
  | .error e =>
    IO.eprint (Program.complaint e.message)
    return 1
  | .ok store =>
    let g : Generator := ⟨store, settings⟩
    if a.interactive then converse (.start g entropy) fs
    else
      let ending := Program.batch g a.output entropy fs
      keep fs ending.files
      IO.eprint ending.complaints
      return ending.code.toUInt32

end Phrasebook.Console

open Phrasebook in
def main (arguments : List String) : IO UInt32 := do
  match Arguments.read arguments with
  | .error .misuse =>
    IO.eprint Console.usage
    return 2
  | .error .help =>
    IO.print Console.usage
    return 0
  | .error .version =>
    IO.print Console.version
    return 0
  | .ok a =>
    match a.settings with
    | .error e =>
      IO.eprint (Program.complaint e.message)
      return 2
    | .ok settings =>
      try Console.run a settings
      catch e =>
        IO.eprint (Program.complaint e.toString)
        return 1
