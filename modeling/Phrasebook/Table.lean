/-!
# Tables

Values by name, kept in the order of the names: code point by code point, which is also the order
of their UTF-8 bytes. Two tables that answer every look-up alike are equal.
-/
namespace Phrasebook

structure Table (α : Type) where
  entries : List (String × α)
  sorted : entries.Pairwise fun a b => a.1 < b.1

namespace Table

variable {α : Type}

def empty : Table α := ⟨[], .nil⟩

instance : EmptyCollection (Table α) := ⟨empty⟩

instance : Inhabited (Table α) := ⟨empty⟩

def find? (t : Table α) (name : String) : Option α := t.entries.lookup name

def contains (t : Table α) (name : String) : Bool := (t.find? name).isSome

def names (t : Table α) : List String := t.entries.map Prod.fst

def values (t : Table α) : List α := t.entries.map Prod.snd

def size (t : Table α) : Nat := t.entries.length

/-- A value that is there under the same name is replaced. -/
def insertEntry (name : String) (value : α) : List (String × α) → List (String × α)
  | [] => [(name, value)]
  | e :: rest =>
    if name < e.1 then (name, value) :: e :: rest
    else if name = e.1 then (name, value) :: rest
    else e :: insertEntry name value rest

theorem mem_insertEntry {name : String} {value : α} {e : String × α} {l : List (String × α)}
    (h : e ∈ insertEntry name value l) : e = (name, value) ∨ e ∈ l := by
  induction l with
  | nil => simpa [insertEntry] using h
  | cons f l ih =>
    unfold insertEntry at h
    split at h
    · simpa using h
    · split at h
      · grind
      · grind

theorem insertEntry_sorted (name : String) (value : α) {l : List (String × α)}
    (h : l.Pairwise fun a b => a.1 < b.1) :
    (insertEntry name value l).Pairwise fun a b => a.1 < b.1 := by
  induction l with
  | nil => simp [insertEntry]
  | cons e l ih =>
    obtain ⟨hl, hr⟩ := List.pairwise_cons.1 h
    unfold insertEntry
    split
    · next lt =>
      refine List.pairwise_cons.2 ⟨fun f hf => ?_, h⟩
      rcases List.mem_cons.1 hf with rfl | hf
      · exact lt
      · exact String.lt_trans lt (hl f hf)
    · split
      · next eq =>
        subst eq
        exact List.pairwise_cons.2 ⟨fun f hf => hl f hf, hr⟩
      · next nlt ne =>
        refine List.pairwise_cons.2 ⟨fun f hf => ?_, ih hr⟩
        rcases mem_insertEntry hf with rfl | hf
        · exact Std.lt_of_le_of_ne (String.not_lt.1 nlt) (Ne.symm ne)
        · exact hl f hf

def insert (t : Table α) (name : String) (value : α) : Table α :=
  ⟨insertEntry name value t.entries, insertEntry_sorted name value t.sorted⟩

def ofList (l : List (String × α)) : Table α := l.foldl (fun t e => t.insert e.1 e.2) ∅

theorem find?_insert (t : Table α) (name other : String) (value : α) :
    (t.insert name value).find? other = if other = name then some value else t.find? other := by
  obtain ⟨l, h⟩ := t
  simp only [find?, insert]
  clear h
  induction l with
  | nil => grind [insertEntry]
  | cons e l ih => grind [insertEntry]

theorem find?_empty (name : String) : (∅ : Table α).find? name = none := rfl

theorem mem_entries {t : Table α} {name : String} {value : α} :
    (name, value) ∈ t.entries ↔ t.find? name = some value := by
  obtain ⟨l, h⟩ := t
  simp only [find?]
  induction l with
  | nil => simp
  | cons e l ih =>
    obtain ⟨hl, hr⟩ := List.pairwise_cons.1 h
    have absent : e.1 = name → (name, value) ∉ l := fun eq hm =>
      String.lt_irrefl name (by simpa [eq] using hl _ hm)
    obtain ⟨k, v⟩ := e
    simp only [List.mem_cons, Prod.mk.injEq, List.lookup_cons]
    by_cases eq : name = k
    · subst eq
      simp [absent rfl, eq_comm]
    · have : (name == k) = false := by simpa using eq
      simp [eq, this, ih hr]

theorem nodup_entries (t : Table α) : t.entries.Nodup :=
  List.nodup_iff_pairwise_ne.2 <| t.sorted.imp fun {a b} (h : a.1 < b.1) (eq : a = b) =>
    String.lt_irrefl b.1 (eq ▸ h)

@[ext]
theorem ext {a b : Table α} (h : ∀ name, a.find? name = b.find? name) : a = b := by
  have hp : a.entries.Perm b.entries :=
    (List.perm_ext_iff_of_nodup a.nodup_entries b.nodup_entries).2 fun e => by
      rw [mem_entries, mem_entries, h]
  have := hp.eq_of_pairwise (fun x y _ _ lt gt => (String.lt_asymm lt gt).elim) a.sorted b.sorted
  obtain ⟨l, hl⟩ := a
  obtain ⟨m, hm⟩ := b
  simp_all

end Table
end Phrasebook
