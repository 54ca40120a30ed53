import Phrasebook.Generator

/-!
# Dispatch

The intents of a run are shared out among workers that go on side by side. Each worker has a queue
of its own, takes one intent after the other from it and sends what came of it. The messages of
different workers arrive in any order, so the answer is put together when no worker goes on any
more, in the order of the names. A worker stops at an intent whose request overflows, sends nothing
for it, and takes the program with it: at once, or when the others are through.
-/
namespace Phrasebook

/-- An intent, and the seed of the words for it. -/
abbrev Job := String × UInt64

/-- An intent, and its examples or their failure. -/
abbrev Message := String × Outcome (List Example)

structure Dispatch where
  /-- What each worker still has to do. -/
  queues : List (List Job)
  /-- What the workers have sent, in the order of arrival. -/
  channel : List Message

namespace Dispatch

/-- How many workers there are: one for each processor, but no more than jobs. -/
def workersFor (processors jobs : Nat) : Nat := max 1 (min processors jobs)

/-- The jobs of one worker: an even share, rounded up. -/
def share (jobs workers : Nat) : Nat := (jobs + workers - 1) / workers

/-- Runs of `size` values one after the other, the last of them of what is left. -/
def chunks {α : Type} (size : Nat) : List α → List (List α)
  | [] => []
  | x :: rest => (x :: rest.take (size - 1)) :: chunks size (rest.drop (size - 1))
termination_by l => l.length

/-- No worker is started where there is nothing to do. -/
def start (workers : Nat) (jobs : List Job) : Dispatch :=
  ⟨chunks (share jobs.length workers) jobs, []⟩

/-- The messages by name, as examples of every intent or as the first failure. Where a worker has
not come to the end of its queue, there is no answer. -/
def collect (d : Dispatch) : Answer (List (String × List Example)) :=
  if d.queues.all (·.isEmpty) then
    .of ((d.channel.mergeSort fun a b => decide (a.1 ≤ b.1)).mapM fun m => m.2.map (m.1, ·))
  else .overflow

end Dispatch

namespace Generator

/-- The jobs of a run, in the order of the intents' names. -/
def jobs (g : Generator) (entropy : UInt64) : List Job :=
  seeds (g.settings.words entropy) g.store.intentNames

def perform (g : Generator) (job : Job) : Answer (List Example) :=
  (g.generate job.1 none (.seeded job.2)).1

/-- Some worker, whichever comes first, does the next of its jobs. -/
inductive Works (g : Generator) : Dispatch → Dispatch → Prop where
  | finish (before after : List (List Job)) (job : Job) (rest : List Job) (channel : List Message)
      (outcome : Outcome (List Example)) (performs : g.perform job = .of outcome) :
    g.Works ⟨before ++ (job :: rest) :: after, channel⟩
      ⟨before ++ rest :: after, channel ++ [(job.1, outcome)]⟩

/-- What the workers can come to from there, in any interleaving. -/
inductive Reaches (g : Generator) : Dispatch → Dispatch → Prop where
  | rest (d : Dispatch) : g.Reaches d d
  | step {a b c : Dispatch} : g.Works a b → g.Reaches b c → g.Reaches a c

/-- No worker goes on: each is through, or has stopped at its next job. -/
def Done (g : Generator) (d : Dispatch) : Prop :=
  ∀ queue ∈ d.queues, ∀ job ∈ queue.head?, g.perform job = .overflow

end Generator
end Phrasebook
