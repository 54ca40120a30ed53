import Phrasebook.Store

/-!
# Changes in place

A declaration changes a store in place: a definition is put there on its first use, before it is
known whether it gets the variation, and taken out again when it does not. Stores come about by
changes, of which any may fail.
-/
namespace Phrasebook

namespace Table

variable {α : Type}

/-- The table without the value under the name, if there is one. -/
def erase (t : Table α) (name : String) : Table α :=
  ⟨t.entries.filter (·.1 ≠ name), t.sorted.filter _⟩

theorem find?_erase (t : Table α) (name other : String) :
    (t.erase name).find? other = if other = name then none else t.find? other := by
  obtain ⟨l, h⟩ := t
  simp only [find?, erase]
  clear h
  induction l with
  | nil => simp
  | cons e l ih => grind

end Table

namespace Store

def remove (s : Store) (kind : Kind) (name : String) : Store :=
  match kind with
  | .alias => { s with aliases := s.aliases.erase name }
  | .slot => { s with slots := s.slots.erase name }
  | .intent => { s with intents := s.intents.erase name }

theorem table_remove (s : Store) (kind other : Kind) (name : String) :
    (s.remove kind name).table other =
      if other = kind then (s.table other).erase name else s.table other := by
  cases kind <;> cases other <;> rfl

/-- The store after a declaration, and the error if the variation could not be added. -/
def declareIn (s : Store) (decl : Declaration) : Store × Option Error :=
  let created := (s.find? decl.kind decl.name).isNone
  let start := Definition.start decl.kind decl.name
  let s := if created then s.put decl.kind decl.name start else s
  let d := (s.find? decl.kind decl.name).getD start
  match d.add decl.variation with
  | .error e => (if created then s.remove decl.kind decl.name else s, some e)
  | .ok grown =>
    let grown := if decl.casing then { grown with casing := true } else grown
    (s.put decl.kind decl.name grown, none)

/-- The stores that changes lead to from the empty one, failed changes among them. Any definition
may be inserted, and any store merged. -/
inductive Reachable : Store → Prop
  | empty : Reachable ∅
  | declare {s} (before : Reachable s) (decl : Declaration) : Reachable (s.declareIn decl).1
  | insert {s} (before : Reachable s) (d : Definition) : Reachable (s.insertAll [d]).1
  | merge {s} (before : Reachable s) (other : Store) : Reachable (s.merge other).1

end Store
end Phrasebook
