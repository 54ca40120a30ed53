import Mathlib.Data.List.Lex
import Phrasebook.Proofs.Changes
import Phrasebook.Text.Utf8

/-!
# Merging

Merging moves the definitions of one store over to another, one by one, and stops at the first that
is there already. What was moved before stays.

* `Text.utf8_lt_iff`: names are in the order of their bytes;
* `Store.Earlier`, `Keyed.sorted`: the order in which definitions are moved: by kind, and then by
  name;
* `insertAll_of_present`: what a merge has done when it stops;
* `all_perm`, `stats_joined`: a store with the definitions of two others has no more than those;
* `merge_exact`: merging is a disjoint union, or stops at the first definition in common.
-/

namespace Phrasebook

/-! ## The order of names -/

namespace Text

/-- Whether a character comes before another, the digits tell that their bytes hold. -/
theorem lt_by_digits {n m : Nat} (less : n < m) (few : m < 0x110000) :
    n / 262144 % 8 < m / 262144 % 8 ∨ n / 262144 % 8 = m / 262144 % 8 ∧
      (n / 4096 % 64 < m / 4096 % 64 ∨ n / 4096 % 64 = m / 4096 % 64 ∧
        (n / 64 % 64 < m / 64 % 64 ∨ n / 64 % 64 = m / 64 % 64 ∧ n % 64 < m % 64)) := by
  have high : n / 262144 < 8 := by omega
  have high' : m / 262144 < 8 := by omega
  rw [Nat.mod_eq_of_lt high, Nat.mod_eq_of_lt high']
  rcases Nat.lt_trichotomy (n / 4096) (m / 4096) with lower | same | higher <;> omega

/-- The bytes of a character come before those of a later one, whatever follows them. -/
theorem encoded_lt {c d : Char} (less : c < d) (s t : List UInt8) :
    String.utf8EncodeChar c ++ s < String.utf8EncodeChar d ++ t := by
  have less : c.val.toNat < d.val.toNat := less
  have few : d.val.toNat < 0x110000 := by
    have valid := d.valid
    simp only [UInt32.isValidChar, Nat.isValidChar] at valid
    omega
  have digits := lt_by_digits less few
  have byte (n m : Nat) (small : n < 0x100) (small' : m < 0x100) (s t : List UInt8) :
      UInt8.ofNat n :: s < UInt8.ofNat m :: t ↔ n < m ∨ n = m ∧ s < t := by
    rw [List.cons_lt_cons_iff, UInt8.lt_iff_toNat_lt, ← UInt8.toNat_inj, UInt8.toNat_ofNat',
      UInt8.toNat_ofNat', Nat.mod_eq_of_lt small, Nat.mod_eq_of_lt small']
  unfold String.utf8EncodeChar
  dsimp only
  -- of two lengths the longer one has the greater first byte
  split_ifs <;> simp (disch := omega) only [List.cons_append, List.nil_append, byte] <;> omega

theorem encoded_ne_nil (c : Char) : String.utf8EncodeChar c ≠ [] := by
  intro none
  have size := congrArg List.length none
  rw [String.length_utf8EncodeChar] at size
  exact absurd size c.utf8Size_pos.ne'

theorem encoded_lt_of_lt {s t : List Char} (less : s < t) :
    s.flatMap String.utf8EncodeChar < t.flatMap String.utf8EncodeChar := by
  induction s generalizing t with
  | nil =>
    cases t with
    | nil => exact absurd less (List.lt_irrefl [])
    | cons d t =>
      obtain ⟨b, bs, bytes⟩ := List.exists_cons_of_ne_nil (encoded_ne_nil d)
      rw [List.flatMap_nil, List.flatMap_cons, bytes, List.cons_append]
      exact List.nil_lt_cons b _
  | cons c s ih =>
    cases t with
    | nil => exact absurd less (List.not_lt_nil _)
    | cons d t =>
      rw [List.flatMap_cons, List.flatMap_cons]
      rcases List.cons_lt_cons_iff.mp less with first | ⟨rfl, later⟩
      · exact encoded_lt first _ _
      · exact List.append_left_lt (ih later)

/-- Texts are in the order of their bytes. -/
theorem utf8_lt_iff {s t : String} : utf8 s < utf8 t ↔ s < t := by
  have bytes (s : String) : utf8 s = s.toList.flatMap String.utf8EncodeChar := by
    rw [utf8, ← String.utf8Encode_toList, List.utf8Encode, List.toList_data_toByteArray]
  have forth {s t : String} (less : s < t) : utf8 s < utf8 t := by
    rw [bytes, bytes]
    exact encoded_lt_of_lt less
  constructor
  · intro less
    rcases Std.lt_trichotomy s t with before | same | behind
    · exact before
    · exact absurd less (same ▸ List.lt_irrefl _)
    · exact absurd less (List.lt_asymm (forth behind))
  · exact forth

end Text

/-! ## The order of definitions -/

/-- Aliases come first, then slots, then intents. -/
def Kind.rank : Kind → Nat
  | .alias => 0
  | .slot => 1
  | .intent => 2

theorem Kind.rank_inj {kind other : Kind} (same : kind.rank = other.rank) : kind = other := by
  cases kind <;> cases other <;> first | rfl | cases same

namespace Store

variable {s a b c : Store} {kind other : Kind} {name name' : String} {d : Definition}
  {ds : List Definition}

/-- A definition is moved before another: by its kind, and then by the bytes of its name. -/
def Earlier (kind : Kind) (name : String) (other : Kind) (name' : String) : Prop :=
  kind.rank < other.rank ∨ kind = other ∧ Text.utf8 name < Text.utf8 name'

instance (kind : Kind) (name : String) (other : Kind) (name' : String) :
    Decidable (Earlier kind name other name') :=
  inferInstanceAs (Decidable (_ ∨ _ ∧ _))

theorem Earlier.asymm (h : Earlier kind name other name') : ¬ Earlier other name' kind name := by
  rintro (lower | ⟨rfl, before⟩)
  · rcases h with lower' | ⟨rfl, -⟩ <;> omega
  · rcases h with lower | ⟨-, before'⟩
    · omega
    · exact List.lt_asymm before before'

theorem Earlier.trichotomy (kind : Kind) (name : String) (other : Kind) (name' : String) :
    Earlier kind name other name' ∨ (kind = other ∧ name = name') ∨
      Earlier other name' kind name := by
  rcases Nat.lt_trichotomy kind.rank other.rank with lower | same | higher
  · exact .inl (.inl lower)
  · obtain rfl := Kind.rank_inj same
    rcases Std.lt_trichotomy name name' with before | same | behind
    · exact .inl (.inr ⟨rfl, Text.utf8_lt_iff.mpr before⟩)
    · exact .inr (.inl ⟨rfl, same⟩)
    · exact .inr (.inr (.inr ⟨rfl, Text.utf8_lt_iff.mpr behind⟩))
  · exact .inr (.inr (.inl higher))

/-- The definitions of a store are listed in this order. -/
theorem Keyed.sorted (h : s.Keyed) :
    s.all.Pairwise fun d e => Earlier d.kind d.name e.kind e.name := by
  apply List.pairwise_flatMap.mpr
  constructor
  · intro kind _
    apply List.pairwise_map.mpr
    apply (s.table kind).sorted.imp_of_mem
    intro e f he hf less
    obtain ⟨kinds, names⟩ := h kind e.1 e.2 (Table.mem_entries.mp he)
    obtain ⟨kinds', names'⟩ := h kind f.1 f.2 (Table.mem_entries.mp hf)
    rw [kinds, kinds', names, names']
    exact .inr ⟨rfl, Text.utf8_lt_iff.mpr less⟩
  · have ranks : Kind.all.Pairwise fun kind other => kind.rank < other.rank := by decide
    apply ranks.imp
    intro kind other lower d hd e he
    obtain ⟨name, found⟩ := mem_definitions.mp hd
    obtain ⟨name', found'⟩ := mem_definitions.mp he
    rw [(h _ _ _ found).1, (h _ _ _ found').1]
    exact .inl lower

/-! ## Stopping -/

theorem insertAll_append {others : List Definition} (moved : s.insertAll ds = (c, none)) :
    s.insertAll (ds ++ others) = c.insertAll others := by
  induction ds generalizing s with
  | nil =>
    cases moved
    rfl
  | cons d ds ih =>
    rw [insertAll] at moved
    rw [List.cons_append, insertAll]
    cases inserted : s.insert d with
    | ok grown =>
      rw [inserted] at moved
      exact ih moved
    | error e =>
      rw [inserted] at moved
      cases moved

/-- Definitions are inserted up to the first that is there already. -/
theorem insertAll_of_present {before after : List Definition} (distinct : before.Pairwise Distinct)
    (absent : ∀ e ∈ before, s.find? e.kind e.name = none)
    (present : (s.find? d.kind d.name).isSome = true) :
    ∃ c, s.insertAll (before ++ d :: after) = (c, some (.duplicate d.kind d.name .definition)) ∧
      ∀ kind name e, c.find? kind name = some e ↔
        s.find? kind name = some e ∨ e ∈ before ∧ e.kind = kind ∧ e.name = name := by
  obtain ⟨c, moved, found⟩ := insertAll_of_absent distinct absent
  obtain ⟨e, there⟩ := Option.isSome_iff_exists.mp present
  have there' : c.find? d.kind d.name = some e := (found _ _ _).mpr (.inl there)
  refine ⟨c, ?_, found⟩
  rw [insertAll_append moved, insertAll, insert, there']
  rfl

/-- The kind and name are defined in both stores. -/
def Shared (a b : Store) (kind : Kind) (name : String) : Prop :=
  (a.find? kind name).isSome = true ∧ (b.find? kind name).isSome = true

/-- Of all that is defined in both stores, this comes first. -/
structure FirstShared (a b : Store) (kind : Kind) (name : String) : Prop where
  shared : a.Shared b kind name
  first : ∀ other name', Earlier other name' kind name → ¬ a.Shared b other name'

theorem apart_iff : a.Apart b ↔ ∀ kind name, ¬ a.Shared b kind name := by
  unfold Apart Shared
  apply forall_congr'
  intro kind
  apply forall_congr'
  intro name
  cases a.find? kind name <;> cases b.find? kind name <;> simp

theorem FirstShared.unique (h : a.FirstShared b kind name) (h' : a.FirstShared b other name') :
    kind = other ∧ name = name' := by
  rcases Earlier.trichotomy kind name other name' with before | same | behind
  · exact absurd h.shared (h'.first _ _ before)
  · exact same
  · exact absurd h'.shared (h.first _ _ behind)

/-- Where the list of a store's definitions is cut, what stands before is what comes earlier. -/
theorem mem_before_iff {before after : List Definition} {d e : Definition} (keyed : b.Keyed)
    (split : b.all = before ++ d :: after) : e ∈ before ∧ e.kind = kind ∧ e.name = name ↔
      b.find? kind name = some e ∧ Earlier kind name d.kind d.name := by
  have sorted := keyed.sorted
  rw [split] at sorted
  obtain ⟨-, behind, front⟩ := List.pairwise_append.mp sorted
  constructor
  · rintro ⟨he, rfl, rfl⟩
    exact ⟨keyed.mem_all.mp (split ▸ List.mem_append_left _ he), front e he d List.mem_cons_self⟩
  · rintro ⟨found, earlier⟩
    obtain ⟨rfl, rfl⟩ := keyed kind name e found
    have he : e ∈ before ++ d :: after := split ▸ keyed.mem_all.mpr found
    rcases List.mem_append.mp he with he | he
    · exact ⟨he, rfl, rfl⟩
    · rcases List.mem_cons.mp he with rfl | he
      · exact absurd earlier earlier.asymm
      · exact absurd earlier ((List.pairwise_cons.mp behind).1 e he).asymm

/-- Stores that are not apart have a first definition in common, and the list of the other store's
definitions is cut there. -/
theorem exists_firstShared (keyed : b.Keyed) (joint : ¬ a.Apart b) :
    ∃ before d after, b.all = before ++ d :: after ∧ a.FirstShared b d.kind d.name ∧
      ∀ e ∈ before, a.find? e.kind e.name = none := by
  obtain ⟨kind, name, there, there'⟩ : ∃ kind name, a.Shared b kind name := by
    simpa [apart_iff] using joint
  obtain ⟨e, found⟩ := Option.isSome_iff_exists.mp there'
  obtain ⟨rfl, rfl⟩ := keyed kind name e found
  have some : (b.all.find? fun d => (a.find? d.kind d.name).isSome).isSome = true :=
    List.find?_isSome.mpr ⟨e, keyed.mem_all.mpr found, there⟩
  obtain ⟨d, first⟩ := Option.isSome_iff_exists.mp some
  obtain ⟨present, before, after, split, passed⟩ := List.find?_eq_some_iff_append.mp first
  have absent : ∀ e ∈ before, a.find? e.kind e.name = none := by simpa using passed
  refine ⟨before, d, after, split, ⟨⟨present, ?_⟩, ?_⟩, absent⟩
  · have hd : d ∈ b.all := split ▸ List.mem_append_right _ List.mem_cons_self
    rw [keyed.mem_all.mp hd]
    rfl
  · rintro other name' earlier ⟨here, here'⟩
    obtain ⟨f, found⟩ := Option.isSome_iff_exists.mp here'
    obtain ⟨hf, rfl, rfl⟩ := (mem_before_iff keyed split).mpr ⟨found, earlier⟩
    rw [absent f hf] at here
    cases here

/-- A merge that stops has moved what comes before the first definition in common. -/
theorem merge_of_firstShared (keyed : b.Keyed) (h : a.FirstShared b kind name) :
    ∃ c, a.merge b = (c, some (.duplicate kind name .definition)) ∧
      ∀ other name', c.find? other name' =
        if Earlier other name' kind name then (a.find? other name').or (b.find? other name')
        else a.find? other name' := by
  have joint : ¬ a.Apart b := fun apart => apart_iff.mp apart kind name h.shared
  obtain ⟨before, d, after, split, first, absent⟩ := exists_firstShared keyed joint
  obtain ⟨rfl, rfl⟩ := first.unique h
  have distinct := keyed.distinct
  rw [split] at distinct
  obtain ⟨c, moved, found⟩ :=
    insertAll_of_present (List.pairwise_append.mp distinct).1 absent first.shared.1
  refine ⟨c, by rw [merge, split]; exact moved, fun other name' => ?_⟩
  apply Option.ext
  intro e
  rw [found, mem_before_iff keyed split]
  by_cases earlier : Earlier other name' d.kind d.name
  · have single := first.first other name' earlier
    unfold Shared at single
    rw [if_pos earlier, Option.or_eq_some_iff]
    cases mine : a.find? other name' with
    | none => simp [earlier]
    | some f =>
      have none : b.find? other name' = none := by simpa [mine] using single
      simp [none]
  · simp [earlier]

/-! ## What is counted -/

/-- The counts of both. -/
def Stats.plus (x y : Stats) : Stats where
  aliases := x.aliases + y.aliases
  slots := x.slots + y.slots
  intents := x.intents + y.intents
  variations := x.variations + y.variations
  rules := x.rules + y.rules

theorem entries_perm (apart : a.Apart b) (joins : a.Joins b c) (kind : Kind) :
    (c.table kind).entries.Perm ((a.table kind).entries ++ (b.table kind).entries) := by
  apply (List.perm_ext_iff_of_nodup (Table.nodup_entries _) ?nodup).mpr
  case nodup =>
    apply List.nodup_append.mpr
    refine ⟨Table.nodup_entries _, Table.nodup_entries _, ?_⟩
    rintro ⟨name, d⟩ he ⟨name', d'⟩ he' same
    cases same
    rw [Table.mem_entries] at he he'
    rcases apart kind name with none | none
    · exact absurd (he.symm.trans none) (Option.some_ne_none d)
    · exact absurd (he'.symm.trans none) (Option.some_ne_none d)
  rintro ⟨name, d⟩
  have both : (c.table kind).find? name =
      ((a.table kind).find? name).or ((b.table kind).find? name) := joins kind name
  rw [List.mem_append, Table.mem_entries, Table.mem_entries, Table.mem_entries, both,
    Option.or_eq_some_iff]
  have alone : (a.table kind).find? name = none ∨ (b.table kind).find? name = none :=
    apart kind name
  rcases alone with none | none <;> simp [none]

theorem all_perm (apart : a.Apart b) (joins : a.Joins b c) : c.all.Perm (a.all ++ b.all) := by
  have kinds : ∀ l : List Kind,
      (l.flatMap c.definitions).Perm (l.flatMap a.definitions ++ l.flatMap b.definitions) := by
    intro l
    induction l with
    | nil => exact .nil
    | cons kind l ih =>
      have here : (c.definitions kind).Perm (a.definitions kind ++ b.definitions kind) := by
        have mapped := (entries_perm apart joins kind).map Prod.snd
        rwa [List.map_append] at mapped
      rw [List.flatMap_cons, List.flatMap_cons, List.flatMap_cons, List.append_assoc]
      refine (here.append ih).trans ?_
      rw [List.append_assoc]
      apply List.Perm.append_left
      rw [← List.append_assoc, ← List.append_assoc]
      exact (List.perm_append_comm).append_right _
  exact kinds Kind.all

theorem stats_joined (apart : a.Apart b) (joins : a.Joins b c) :
    c.stats = a.stats.plus b.stats := by
  have size (kind : Kind) :
      (c.table kind).size = (a.table kind).size + (b.table kind).size := by
    rw [Table.size, (entries_perm apart joins kind).length_eq, List.length_append]
    rfl
  have total {β : Type} (part : Definition → List β) :
      (c.all.flatMap part).length = (a.all.flatMap part).length + (b.all.flatMap part).length := by
    rw [((all_perm apart joins).flatMap_right part).length_eq, List.flatMap_append,
      List.length_append]
  rw [stats, Stats.plus, Stats.mk.injEq]
  exact ⟨size .alias, size .slot, size .intent, total _, total _⟩

/-- **Merging is disjoint union.** Stores without a definition in common are merged into one with
the definitions of both, in either direction, and counts add up. Otherwise the merge stops, with an
error for the first definition in common, and has moved just the definitions that come before it. -/
theorem merge_exact {a b : Store} (own : a.Keyed) (keyed : b.Keyed) :
    ((a.merge b).2 = none ↔ ∀ kind name, ¬ a.Shared b kind name) ∧
      ((a.merge b).2 = none →
        a.Joins b (a.merge b).1 ∧ (a.merge b).1.stats = a.stats.plus b.stats ∧
          b.merge a = a.merge b) ∧
      ((a.merge b).2 ≠ none → ∃ kind name, a.FirstShared b kind name ∧
        (a.merge b).2 = some (.duplicate kind name .definition) ∧
        ∀ other name', (a.merge b).1.find? other name' =
          if Earlier other name' kind name then (a.find? other name').or (b.find? other name')
          else a.find? other name') := by
  rw [← apart_iff]
  by_cases apart : a.Apart b
  · obtain ⟨c, merged, joins⟩ := merge_of_apart keyed apart
    obtain ⟨c', merged', joins'⟩ := merge_of_apart own apart.symm
    obtain rfl : c = c' := joins.unique (joins'.symm apart.symm)
    rw [merged, merged']
    exact ⟨⟨fun _ => apart, fun _ => rfl⟩, fun _ => ⟨joins, stats_joined apart joins, rfl⟩,
      fun failed => absurd rfl failed⟩
  · obtain ⟨_, d, _, _, first, _⟩ := exists_firstShared keyed apart
    obtain ⟨c, merged, found⟩ := merge_of_firstShared keyed first
    rw [merged]
    exact ⟨⟨nofun, fun h => absurd h apart⟩, nofun, fun _ => ⟨_, _, first, rfl, found⟩⟩

/-- The alias in common stops the merge behind the other alias, and before the slot. -/
theorem merge_exact_greeting : ∃ a b : Store, a.Keyed ∧ b.Keyed ∧
    a.FirstShared b .alias "who" ∧
    (a.merge b).2 = some (.duplicate .alias "who" .definition) ∧
    (a.merge b).1.find? .alias "all" = b.find? .alias "all" ∧
    (a.merge b).1.find? .alias "who" = a.find? .alias "who" ∧
    (a.merge b).1.find? .slot "name" = none := by
  let word (text : String) : Variation := ⟨none, none, [⟨[.word text], none⟩]⟩
  let you : Definition := ⟨"who", .alias, false, [word "you"]⟩
  let me : Definition := ⟨"who", .alias, false, [word "me"]⟩
  let all : Definition := ⟨"all", .alias, false, [word "all"]⟩
  let bob : Definition := ⟨"name", .slot, false, [word "Bob"]⟩
  have empty : (∅ : Store).Keyed := Reachable.empty.keyed
  let a : Store := (∅ : Store).put .alias "who" you
  let b : Store := (((∅ : Store).put .slot "name" bob).put .alias "who" me).put .alias "all" all
  have own : a.Keyed := keyed_put empty you
  have keyed : b.Keyed := keyed_put (keyed_put (keyed_put empty bob) me) all
  have failed : (a.merge b).2 = some (.duplicate .alias "who" .definition) := by decide
  obtain ⟨-, -, stops⟩ := merge_exact own keyed
  obtain ⟨kind, name, first, error, found⟩ := stops (by simp [failed])
  rw [failed] at error
  cases error
  refine ⟨a, b, own, keyed, first, failed, ?_, ?_, ?_⟩
  · rw [found, if_pos (by decide)]
    rfl
  · rw [found, if_neg (by decide)]
  · rw [found, if_neg (by decide)]
    rfl

end Store
end Phrasebook
