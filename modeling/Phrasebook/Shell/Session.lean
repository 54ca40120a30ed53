import Phrasebook.Definition.Printer
import Phrasebook.Files
import Phrasebook.Generator
import Phrasebook.Rule.Reader
import Phrasebook.Shell.Command

/-!
# Sessions

A session answers command lines one after another, from one store and one source of random words.
Each answer is a block of text, printed or added to the end of a file. The console takes every text
that is printed. A request that overflows ends the session with the program.
-/
namespace Phrasebook

structure Session where
  generator : Generator
  words : Words

/-- What a line is answered with: whether the session is over, and text for the console or for the
file that the line redirects to. -/
structure Reply where
  stop : Bool := false
  text : Option String := none
  file : Option String := none
deriving DecidableEq, Repr

namespace Session

def start (g : Generator) (entropy : UInt64) : Session := ⟨g, g.settings.words entropy⟩

/-- One line for each example. -/
def listing (examples : List Example) : String := "\n".intercalate (examples.map (·.text))

def produce (s : Session) (make : Words → Answer (List Example) × Words) :
    Answer String × Session :=
  let (result, words) := make s.words
  (result.map listing, { s with words })

/-- The rule that a command line gives, read like a line of a template. -/
def ruleOf (text : String) : Outcome Rule :=
  Rule.read (.ofList (Text.trim (Text.prepare text.toList)))

def run (s : Session) (c : Command) (file : Option String) : Answer Reply × Session :=
  match c with
  | .exit => (.ok { stop := true }, s)
  | .stats => (.ok { text := s.generator.store.stats.text, file }, s)
  | .showDefinition kind name =>
    (.of ((s.generator.store.get kind name).map fun d =>
      { text := d.written kind name, file }), s)
  | .generate intent variation count =>
    let (result, s) := s.produce fun w =>
      match count with
      | some n => s.generator.generateCount intent variation n w
      | none => s.generator.generate intent variation w
    (result.map fun text => { text := some text, file }, s)
  | .rule text count =>
    match ruleOf text with
    | .error e => (.error e, s)
    | .ok r =>
      let (result, s) := s.produce (s.generator.generateRule r count)
      (result.map fun text => { text := some text, file }, s)
  | .unknown name => (.ok { text := "unknown command '" ++ name ++ "'" }, s)

def answer (s : Session) (line : String) : Answer Reply × Session :=
  match CommandLine.read line with
  | .error e => (.error e, s)
  | .ok parsed =>
    match Command.read line parsed.tokens with
    | .error e => (.error e, s)
    | .ok none => (.ok {}, s)
    | .ok (some c) => s.run c parsed.redirection

end Session

/-- What is printed for a reply, and the files after it. Only a file can refuse a text. -/
def Reply.deliver (r : Reply) (fs : Files) : Outcome String × Files :=
  match r.text, r.file with
  | none, _ => (.ok "", fs)
  | some text, none => (.ok (text ++ "\n"), fs)
  | some text, some path =>
    match fs.append path (Text.utf8 (text ++ "\n")) with
    | .ok fs => (.ok "", fs)
    | .error fault => (.error (.file fault), fs)

/-- A line's outcome, whether the session is over, with what it printed. -/
structure Turn where
  outcome : Answer Bool
  printed : String
  session : Session
  files : Files

/-- Answers a line and delivers the reply. -/
def Session.turn (s : Session) (fs : Files) (line : String) : Turn :=
  match s.answer line with
  | (.overflow, s) => ⟨.overflow, "", s, fs⟩
  | (.error e, s) => ⟨.error e, "", s, fs⟩
  | (.ok reply, s) =>
    match reply.deliver fs with
    | (.error e, fs) => ⟨.error e, "", s, fs⟩
    | (.ok printed, fs) => ⟨.ok reply.stop, printed, s, fs⟩

end Phrasebook
