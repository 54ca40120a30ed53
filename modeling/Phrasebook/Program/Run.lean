import Phrasebook.Cache
import Phrasebook.Program.Arguments
import Phrasebook.Report
import Phrasebook.Shell.Session

/-!
# Running the program

The program loads a template and then either writes one report for each intent into a directory, or
answers the lines of its input. All examples are there before the first report is written.
-/
namespace Phrasebook.Program

def complaint (text : String) : String := "error: " ++ text ++ "\n"

def load (a : Arguments) (fs : Files) : Outcome Store × Files :=
  if a.cache then Cache.load fs a.template else (Template.load fs a.template, fs)

/-- Where the report of an intent goes. -/
def reportPath (directory intent : String) : String := Path.join directory (intent ++ ".json")

/-- Writes reports until one cannot be written; those before it stay. -/
def writeReports (directory : String) (fs : Files) :
    List (String × List Example) → Files × Option FileFault
  | [] => (fs, none)
  | (intent, examples) :: rest =>
    match fs.write (reportPath directory intent) (Text.utf8 (Report.document examples)) with
    | .ok fs => writeReports directory fs rest
    | .error fault => (fs, some fault)

/-- A finished run: its exit code, what it printed and complained about, and the files after it. -/
structure Ending where
  code : UInt8
  printed : String := ""
  complaints : String := ""
  files : Files

namespace Ending

def failed (message : String) (files : Files) : Ending :=
  { code := 1, complaints := complaint message, files }

/-- A program that is stopped gives no code itself. This is the one that a shell shows for it. What
is told about the stop is left out. -/
def stopped (files : Files) : Ending := { code := 134, files }

/-- The ending behind what was printed and complained about before. -/
def behind (printed complaints : String) (e : Ending) : Ending :=
  { e with printed := printed ++ e.printed, complaints := complaints ++ e.complaints }

end Ending

/-- A run without a console. Of a file that cannot be written only the fault itself is told. -/
def batch (g : Generator) (directory : String) (entropy : UInt64) (fs : Files) : Ending :=
  match fs.createDirectories directory with
  | (fs, some fault) => .failed fault.message fs
  | (fs, none) =>
    match g.generateAll entropy with
    | .overflow => .stopped fs
    | .error e => .failed e.message fs
    | .ok results =>
      match writeReports directory fs results with
      | (fs, none) => { code := 0, files := fs }
      | (fs, some fault) => .failed fault.message fs

def prompt : String := ">>> "

def trimmedEnd (line : List Char) : String := .ofList (Text.trimEnd line)

/-- Answers lines until one ends the session or there are no more. -/
def converse (s : Session) (fs : Files) : List (List Char) → Ending
  | [] => { code := 0, printed := prompt, files := fs }
  | line :: rest =>
    let turn := s.turn fs (trimmedEnd line)
    let printed := prompt ++ turn.printed
    match turn.outcome with
    | .ok true => { code := 0, printed, files := turn.files }
    | .ok false => (converse turn.session turn.files rest).behind printed ""
    | .error e => (converse turn.session turn.files rest).behind printed (complaint e.message)
    | .overflow => (Ending.stopped turn.files).behind printed ""

/-- Help and version texts, and those of misuse, are left to the console. -/
def run (arguments : List String) (input : String) (entropy : UInt64) (fs : Files) : Ending :=
  match Arguments.read arguments with
  | .error .misuse => { code := 2, files := fs }
  | .error .help => { code := 0, files := fs }
  | .error .version => { code := 0, files := fs }
  | .ok a =>
    match a.settings with
    | .error e => { code := 2, complaints := complaint e.message, files := fs }
    | .ok settings =>
      match load a fs with
      | (.error e, fs) => .failed e.message fs
      | (.ok store, fs) =>
        let g : Generator := ⟨store, settings⟩
        if a.interactive then converse (.start g entropy) fs (Text.lines input.toList)
        else batch g a.output entropy fs

end Phrasebook.Program
