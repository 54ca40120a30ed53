import Std.Data.HashSet
import Phrasebook.Answer
import Phrasebook.Counting
import Phrasebook.Enumeration
import Phrasebook.Settings

/-!
# Generating examples

Each variation of an intent gives a block of examples. With a count it is sampled: attempts with a
text that was seen before are dropped as long as the budget for duplicates lasts, and kept
afterwards, so that the count is always met. Without a count it is enumerated, each text once, or
sampled where the combinations are too many. The list for a sample is laid out in its full length
before the first attempt, and one that is too long ends the program. That there is less memory than
addresses is left out.
-/
namespace Phrasebook

structure Generator where
  store : Store
  settings : Settings

namespace Generator

/-- One utterance from one of the rules, which are the body of a target or stand alone. -/
def attempt (g : Generator) (intent : String) (target : Option Target) (rules : List Rule)
    (w : Words) : Outcome Example × Words :=
  match w.choose rules with
  | (none, w) => (.error (.withoutRules .intent intent), w)
  | (some r, w) =>
    let (result, pass) := match target with
      | some t => g.store.expandWithin [] t r { words := w }
      | none => g.store.expandRule [] r { words := w }
    (result.map (·.toExample intent), pass.words)

/-- Attempts until `needed` more examples are kept, of which `spare` may be dropped. -/
def gather (attempt : Words → Outcome Example × Words) (needed spare : Nat)
    (seen : Std.HashSet String) (kept : Array Example) (w : Words) :
    Outcome (List Example) × Words :=
  match needed with
  | 0 => (.ok kept.toList, w)
  | rest + 1 =>
    match attempt w with
    | (.error e, w) => (.error e, w)
    | (.ok e, w) =>
      if seen.contains e.text then
        match spare with
        | left + 1 => gather attempt (rest + 1) left seen kept w
        | 0 => gather attempt rest 0 seen (kept.push e) w
      else gather attempt rest spare (seen.insert e.text) (kept.push e) w
termination_by needed + spare

/-- The most examples that a list can be laid out for: it has no more than 2 ^ 63 - 1 bytes, and
each example takes 72 of them. -/
def room : Nat := 0x7FFFFFFFFFFFFFFF / 72

def sample (g : Generator) (intent : String) (target : Option Target) (rules : List Rule)
    (count : UInt64) (w : Words) : Answer (List Example) × Words :=
  if count > g.settings.maxCount then
    (.error (.invalidCount (.aboveLimit count g.settings.maxCount)), w)
  else if count.toNat > room then (.overflow, w)
  else
    let spare := capped (count.toNat * g.settings.dedupFactor.toNat)
    let (outcome, w) := gather (g.attempt intent target rules) count.toNat spare.toNat ∅ #[] w
    (.of outcome, w)

/-- Appends the fragments whose text was not seen before. -/
def keepNew (seen : Std.HashSet String) (kept : Array Fragment) : List Fragment → List Fragment
  | [] => kept.toList
  | f :: rest =>
    if seen.contains f.text then keepNew seen kept rest
    else keepNew (seen.insert f.text) (kept.push f) rest

def distinct (fragments : List Fragment) : List Fragment := keepNew ∅ #[] fragments

def exhaust (g : Generator) (intent : String) (target : Target) (rules : List Rule) (w : Words) :
    Answer (List Example) × Words :=
  match g.store.countRules [target] rules with
  | .error e => (.error e, w)
  | .ok size =>
    if size.fits g.settings.maxEnumeration then
      let fragments := g.store.listRules [target] target.kind target.name rules
      (.of (fragments.map fun l => (distinct l).map (·.toExample intent)), w)
    else g.sample intent (some target) rules g.settings.fallback w

def block (g : Generator) (intent : String) (v : Variation) (w : Words) :
    Answer (List Example) × Words :=
  let target : Target := ⟨.intent, intent, v.name⟩
  match v.count with
  | some count => g.sample intent (some target) v.rules count w
  | none => g.exhaust intent target v.rules w

def blocks (g : Generator) (intent : String) (vs : List Variation) (w : Words) :
    Answer (List Example) × Words :=
  match vs with
  | [] => (.ok [], w)
  | v :: rest =>
    match g.block intent v w with
    | (.ok first, w) =>
      let (others, w) := g.blocks intent rest w
      (others.map (first ++ ·), w)
    | (.error e, w) => (.error e, w)
    | (.overflow, w) => (.overflow, w)

/-- The variations that a request means: the one it names, or all of them. -/
def selected (g : Generator) (intent : String) (variation : Option String) :
    Outcome (List Variation) := do
  let d ← g.store.get .intent intent
  match variation with
  | none => return d.variations
  | some name =>
    match d.variation? (some name) with
    | some v => return [v]
    | none => throw (.unknownVariation .intent intent name)

/-- Examples of an intent as its declarations ask for them. -/
def generate (g : Generator) (intent : String) (variation : Option String) (w : Words) :
    Answer (List Example) × Words :=
  match g.selected intent variation with
  | .error e => (.error e, w)
  | .ok vs => g.blocks intent vs w

/-- So many examples of an intent, whatever its declarations ask for. -/
def generateCount (g : Generator) (intent : String) (variation : Option String) (count : UInt64)
    (w : Words) : Answer (List Example) × Words :=
  if count = 0 then (.error (.invalidCount (.notPositive "0")), w)
  else
    let target : Target := ⟨.intent, intent, variation⟩
    match g.store.resolve target with
    | .error e => (.error e, w)
    | .ok (_, rules) => g.sample intent (some target) rules count w

/-- Examples of a rule that belongs to no intent. -/
def generateRule (g : Generator) (r : Rule) (count : UInt64) (w : Words) :
    Answer (List Example) × Words :=
  if count = 0 then (.error (.invalidCount (.notPositive "0")), w)
  else g.sample "" none [r] count w

/-- A seed for each intent, taken in order from the words of the run. -/
def seeds (w : Words) : List String → List (String × UInt64)
  | [] => []
  | intent :: rest =>
    let (seed, w) := w.next64
    (intent, seed) :: seeds w rest

/-- The examples of every intent, in the order of their names. Each has words of its own, so no
intent's examples depend on another's. -/
def generateAll (g : Generator) (entropy : UInt64) : Answer (List (String × List Example)) :=
  .all <| (seeds (g.settings.words entropy) g.store.intentNames).map fun job =>
    (g.generate job.1 none (.seeded job.2)).1.map (job.1, ·)

end Generator
end Phrasebook
