import Phrasebook.Error

/-!
# Answers

A request for examples has a third ending beside examples and an error. Where the list that it asks
for is longer than memory has addresses for, no error is told: the program stops.
-/
namespace Phrasebook

/-- What a request comes to. -/
inductive Answer (α : Type) where
  | ok (value : α)
  | error (e : Error)
  /-- The program has stopped. -/
  | overflow

namespace Answer

variable {α β : Type}

/-- The answer of what cannot overflow. -/
def of : Outcome α → Answer α
  | .ok a => .ok a
  | .error e => .error e

def map (f : α → β) : Answer α → Answer β
  | ok a => ok (f a)
  | error e => error e
  | overflow => overflow

/-- One more answer before the others: its value before theirs, or the first error. For this all of
them have to be there, so one that overflows leaves nothing, wherever it stands. -/
def before : Answer α → Answer (List α) → Answer (List α)
  | overflow, _ => overflow
  | ok _, overflow => overflow
  | error _, overflow => overflow
  | error e, _ => error e
  | ok _, error e => error e
  | ok a, ok others => ok (a :: others)

/-- All of the values, or the first error. -/
def all (answers : List (Answer α)) : Answer (List α) := answers.foldr before (ok [])

end Answer
end Phrasebook
