/-!
# Walks that never return

What ends a walk that refuses to step twice onto the same thing: every step leaves fewer things to
step onto.
-/
namespace Phrasebook

/-- How many of the things that there are were not visited. -/
def unvisited {α : Type} [DecidableEq α] (all visited : List α) : Nat :=
  (all.filter (· ∉ visited)).length

theorem unvisited_cons_lt {α : Type} [DecidableEq α] {x : α} {all visited : List α}
    (there : x ∈ all) (absent : x ∉ visited) :
    unvisited all (x :: visited) < unvisited all visited := by
  have mono (l : List α) :
      (l.filter (· ∉ x :: visited)).length ≤ (l.filter (· ∉ visited)).length := by
    induction l with
    | nil => simp
    | cons y l ih => grind
  simp only [unvisited]
  induction all with
  | nil => simp at there
  | cons y l ih =>
    have := mono l
    grind

end Phrasebook
