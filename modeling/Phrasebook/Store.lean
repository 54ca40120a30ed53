import Phrasebook.Definition
import Phrasebook.Table
import Phrasebook.Unvisited

/-!
# Stores

A store holds every alias, slot and intent by name, each kind apart. A declaration either fails and
leaves nothing behind, or adds one variation. Merging moves definitions over one by one and stops at
the first that is there already.
-/
namespace Phrasebook

structure Store where
  aliases : Table Definition := ∅
  slots : Table Definition := ∅
  intents : Table Definition := ∅

namespace Store

instance : EmptyCollection Store := ⟨{}⟩

instance : Inhabited Store := ⟨∅⟩

def table (s : Store) : Kind → Table Definition
  | .alias => s.aliases
  | .slot => s.slots
  | .intent => s.intents

def put (s : Store) (kind : Kind) (name : String) (d : Definition) : Store :=
  match kind with
  | .alias => { s with aliases := s.aliases.insert name d }
  | .slot => { s with slots := s.slots.insert name d }
  | .intent => { s with intents := s.intents.insert name d }

theorem table_put (s : Store) (kind other : Kind) (name : String) (d : Definition) :
    (s.put kind name d).table other =
      if other = kind then (s.table other).insert name d else s.table other := by
  cases kind <;> cases other <;> rfl

@[ext]
theorem ext {a b : Store} (h : ∀ kind, a.table kind = b.table kind) : a = b := by
  cases a; cases b
  have ha := h .alias
  have hs := h .slot
  have hi := h .intent
  simp_all [table]

def find? (s : Store) (kind : Kind) (name : String) : Option Definition :=
  (s.table kind).find? name

def get (s : Store) (kind : Kind) (name : String) : Outcome Definition :=
  match s.find? kind name with
  | some d => .ok d
  | none => .error (.undeclared kind name)

/-- Definitions of a kind, in the order of their names. -/
def definitions (s : Store) (kind : Kind) : List Definition := (s.table kind).values

/-- All definitions: aliases, then slots, then intents. -/
def all (s : Store) : List Definition := Kind.all.flatMap s.definitions

def intentNames (s : Store) : List String := s.intents.names

def insert (s : Store) (d : Definition) : Outcome Store :=
  if (s.find? d.kind d.name).isSome then .error (.duplicate d.kind d.name .definition)
  else .ok (s.put d.kind d.name d)

def declare (s : Store) (decl : Declaration) : Outcome Store := do
  let d := (s.find? decl.kind decl.name).getD (.start decl.kind decl.name)
  let grown ← d.add decl.variation
  return s.put decl.kind decl.name { grown with casing := d.casing || decl.casing }

/-- What was moved before an error stays moved. -/
def insertAll (s : Store) : List Definition → Store × Option Error
  | [] => (s, none)
  | d :: rest =>
    match s.insert d with
    | .ok grown => grown.insertAll rest
    | .error e => (s, some e)

def merge (s other : Store) : Store × Option Error := s.insertAll other.all

/-- All rules of an alias or a slot. -/
def plainRules (s : Store) (kind : Kind) (name : String) : Outcome (List Rule) :=
  if kind = .intent then .error (.misuse .intentRules)
  else (s.get kind name).map Definition.allRules

/-- All rules of an intent, whatever counts its variations ask for. -/
def intentRules (s : Store) (name : String) : Outcome (List Rule) :=
  (s.get .intent name).map Definition.allRules

/-- The definition that a target names, and the rules that are meant. -/
def resolve (s : Store) (t : Target) : Outcome (Definition × List Rule) := do
  let d ← s.get t.kind t.name
  let rules ← d.rulesOf t.variation
  return (d, rules)

/-- The targets that name something: each definition as a whole, and each named variation. -/
def targets (s : Store) : List Target :=
  Kind.all.flatMap fun kind => (s.table kind).entries.flatMap fun e =>
    ⟨kind, e.1, none⟩ :: e.2.variations.filterMap fun v => v.name.map fun n => ⟨kind, e.1, some n⟩

theorem mem_targets_of_resolve {s : Store} {t : Target} {d : Definition} {rules : List Rule}
    (h : s.resolve t = .ok (d, rules)) : t ∈ s.targets := by
  obtain ⟨kind, name, variation⟩ := t
  simp only [resolve, get, find?, bind, Except.bind, pure, Except.pure] at h
  cases hf : (s.table kind).find? name with
  | none => simp [hf] at h
  | some d' =>
    simp only [hf] at h
    refine List.mem_flatMap.2 ⟨kind, by cases kind <;> simp [Kind.all], ?_⟩
    refine List.mem_flatMap.2 ⟨(name, d'), Table.mem_entries.2 hf, ?_⟩
    cases variation with
    | none => simp
    | some v =>
      simp only [Definition.rulesOf, Definition.variation?] at h
      cases hv : d'.variations.find? (·.name = some v) with
      | none => simp [hv] at h
      | some w =>
        have hw := List.find?_some hv
        refine List.mem_cons_of_mem _ (List.mem_filterMap.2 ⟨w, List.mem_of_find?_eq_some hv, ?_⟩)
        simp only [decide_eq_true_eq] at hw
        simp [hw]

/-- How many targets of the store a trail can still step onto. -/
def room (s : Store) (trail : Trail) : Nat := unvisited s.targets trail

theorem room_step {s : Store} {t : Target} {trail longer : Trail} (ht : t ∈ s.targets)
    (hs : trail.step? t = some longer) : s.room longer < s.room trail := by
  simp only [Trail.step?] at hs
  split at hs
  · simp at hs
  · next absent =>
    simp only [Option.some.injEq] at hs
    exact hs ▸ unvisited_cons_lt ht absent

structure Stats where
  aliases : Nat
  slots : Nat
  intents : Nat
  variations : Nat
  rules : Nat
deriving DecidableEq, Repr

def Stats.text (s : Stats) : String :=
  toString s.aliases ++ " aliases, " ++ toString s.slots ++ " slots, " ++ toString s.intents ++
    " intents (" ++ toString s.variations ++ " variations, " ++ toString s.rules ++ " rules)"

def stats (s : Store) : Stats where
  aliases := s.aliases.size
  slots := s.slots.size
  intents := s.intents.size
  variations := (s.all.flatMap (·.variations)).length
  rules := (s.all.flatMap (·.allRules)).length

end Store
end Phrasebook
