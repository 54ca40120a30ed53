import Mathlib.Algebra.Group.Nat.Defs
import Mathlib.Data.List.Basic
import Phrasebook.Cache.Layout

/-!
# Stores that are read back

A cached store is read field by field as it was written. Only lengths can go wrong: a text, a list
or a table of 2 ^ 64 or more is written with a length that no reader takes.

* `Cache.Yields`: what a reader takes from bytes in front of any others, and `Yields.bind`: readers
  one after the other;
* `Store.Storable`: every length is a number of 64 bits;
* `Cache.yields_piece`, `Cache.yields_store`: storable values are read back, and all others refused;
* `Cache.decode_encode`: so a store is what its encoding is decoded as, whatever follows it.
-/

namespace Phrasebook

namespace Table

variable {α : Type}

theorem insertEntry_last {name : String} {value : α} {l : List (String × α)}
    (last : ∀ e ∈ l, e.1 < name) : insertEntry name value l = l ++ [(name, value)] := by
  induction l with
  | nil => rfl
  | cons e l ih =>
    have before := last e List.mem_cons_self
    rw [insertEntry, if_neg (String.lt_asymm before), if_neg, List.cons_append,
      ih fun f there => last f (List.mem_cons_of_mem e there)]
    rintro rfl
    exact String.lt_irrefl _ before

/-- A table is made of its entries. -/
theorem ofList_entries (t : Table α) : ofList t.entries = t := by
  have grows (l : List (String × α)) (start : Table α)
      (sorted : (start.entries ++ l).Pairwise fun a b => a.1 < b.1) :
      (l.foldl (fun t e => t.insert e.1 e.2) start).entries = start.entries ++ l := by
    induction l generalizing start with
    | nil => exact (List.append_nil _).symm
    | cons e l ih =>
      have last : (start.insert e.1 e.2).entries = start.entries ++ [e] :=
        insertEntry_last fun f there =>
          (List.pairwise_append.mp sorted).2.2 f there e List.mem_cons_self
      have inserted : (start.insert e.1 e.2).entries ++ l = start.entries ++ e :: l := by
        rw [last, List.append_assoc, List.singleton_append]
      rw [List.foldl_cons, ih (start.insert e.1 e.2) (inserted ▸ sorted), inserted]
  have same : (ofList t.entries).entries = t.entries := grows t.entries ∅ t.sorted
  ext name
  rw [find?, same, find?]

end Table

/-! ## What can be stored -/

/-- Lengths are stored as numbers of 64 bits. -/
def lengthLimit : Nat := 2 ^ 64

def StorableText (s : String) : Prop := s.utf8ByteSize < lengthLimit

def StorableAll {α : Type} (Storable : α → Prop) (l : List α) : Prop :=
  l.length < lengthLimit ∧ ∀ a ∈ l, Storable a

def Modifiers.Storable (m : Modifiers) : Prop :=
  (∀ name ∈ m.variation, StorableText name) ∧ ∀ name ∈ m.group, StorableText name

mutual

def Piece.Storable : Piece → Prop
  | .word text => StorableText text
  | .group pieces value m =>
    pieces.length < lengthLimit ∧ Piece.StorableEach pieces ∧ (∀ text ∈ value, StorableText text) ∧
      m.Storable
  | .reference _ name m => StorableText name ∧ m.Storable

def Piece.StorableEach : List Piece → Prop
  | [] => True
  | p :: rest => p.Storable ∧ Piece.StorableEach rest

end

def Rule.Storable (r : Rule) : Prop :=
  r.pieces.length < lengthLimit ∧ Piece.StorableEach r.pieces ∧ ∀ text ∈ r.value, StorableText text

def Variation.Storable (v : Variation) : Prop :=
  (∀ name ∈ v.name, StorableText name) ∧ StorableAll Rule.Storable v.rules

def Definition.Storable (d : Definition) : Prop :=
  StorableText d.name ∧ StorableAll Variation.Storable d.variations

def Table.Storable (t : Table Definition) : Prop :=
  StorableAll (fun e => StorableText e.1 ∧ e.2.Storable) t.entries

theorem Table.storable_empty : (∅ : Table Definition).Storable := ⟨by decide, nofun⟩

/-- No text, list or table in it is so long that its length would not be a number of 64 bits. -/
def Store.Storable (s : Store) : Prop :=
  s.aliases.Storable ∧ s.slots.Storable ∧ s.intents.Storable

namespace Cache

/-! ## Readers -/

section
variable {α β : Type} {read : Reader α} {next : α → Reader β} {bytes bytes' : List UInt8}
  {fits fits' : Prop} {a : α} {b : β}

/-- From the bytes, in front of any others, the reader takes the value if it fits; otherwise it
fails. -/
def Yields (read : Reader α) (bytes : List UInt8) (fits : Prop) (a : α) : Prop :=
  ∀ rest, (fits → read (bytes ++ rest) = some (a, rest)) ∧
    (¬ fits → read (bytes ++ rest) = none)

theorem yields_pure (a : α) : Yields (pure a) [] True a :=
  fun _ => ⟨fun _ => rfl, fun misfit => absurd trivial misfit⟩

theorem Yields.bind (first : Yields read bytes fits a)
    (later : Yields (next a) bytes' fits' b) :
    Yields (read >>= next) (bytes ++ bytes') (fits ∧ fits') b := by
  intro rest
  obtain ⟨taken, refused⟩ := first (bytes' ++ rest)
  rw [List.append_assoc]
  by_cases fit : fits
  · have goes : (read >>= next) (bytes ++ (bytes' ++ rest)) = next a (bytes' ++ rest) := by
      simp only [Bind.bind, StateT.bind, taken fit, Option.bind_some]
    rw [goes, and_iff_right fit]
    exact later rest
  · have stops : (read >>= next) (bytes ++ (bytes' ++ rest)) = none := by
      simp only [Bind.bind, StateT.bind, refused fit, Option.bind_none]
    exact ⟨fun both => absurd both.1 fit, fun _ => stops⟩

theorem Yields.congr (h : Yields read bytes fits a) (same : fits ↔ fits') :
    Yields read bytes fits' a := by
  rwa [← propext same]

theorem Yields.map (h : Yields read bytes fits a) (f : α → β) :
    Yields (do return f (← read)) bytes fits (f a) := by
  have done : Yields (pure (f a)) [] True (f a) := yields_pure (f a)
  have both : Yields (read >>= fun a => pure (f a)) (bytes ++ []) (fits ∧ True) (f a) := h.bind done
  rw [List.append_nil] at both
  exact both.congr (and_iff_left trivial)

end

/-! ## Numbers and texts -/

theorem Varint.length_encode_pos (n : Nat) : 0 < (encode n).length := by
  rw [encode]
  split <;> exact Nat.succ_pos _

section
variable {more n : Nat} {top : UInt8}

theorem Varint.decode_end (small : n < 128) (rest : List UInt8) :
    decode more top (.ofNat n :: rest) =
      if more = 0 ∧ top.toNat < n then none else some (n, rest) := by
  have byte : (UInt8.ofNat n).toNat = n := by
    rw [UInt8.toNat_ofNat']
    omega
  have ends : UInt8.ofNat n < 128 := by
    rw [UInt8.lt_iff_toNat_lt, byte]
    exact small
  unfold decode
  rw [if_pos ends, byte]
  simp only [UInt8.lt_iff_toNat_lt, byte, Bool.and_eq_true, decide_eq_true_eq]

theorem Varint.decode_further (more : Nat) (rest : List UInt8) :
    decode 0 top (.ofNat (n % 128 + 128) :: rest) = none ∧
      decode (more + 1) top (.ofNat (n % 128 + 128) :: rest) =
        (decode more top rest).map fun (high, rest) => (n % 128 + 128 * high, rest) := by
  have byte : (UInt8.ofNat (n % 128 + 128)).toNat = n % 128 + 128 := by
    rw [UInt8.toNat_ofNat']
    omega
  have goes : ¬ UInt8.ofNat (n % 128 + 128) < 128 := by
    rw [UInt8.lt_iff_toNat_lt, byte]
    exact Nat.not_lt.mpr (Nat.le_add_left 128 _)
  rw [decode, decode, if_neg goes, if_neg goes, byte, Nat.add_sub_cancel]
  exact ⟨rfl, rfl⟩

/-- A number is read back if it fits the longest form. -/
theorem yields_varint (low : top.toNat < 128) (n : Nat) :
    Yields (Varint.decode more top) (Varint.encode n) (n < (top.toNat + 1) * 128 ^ more) n := by
  intro rest
  induction more generalizing n with
  | zero =>
    rw [Varint.encode, Nat.pow_zero, Nat.mul_one]
    split
    · next small =>
      rw [List.singleton_append, Varint.decode_end small]
      exact ⟨fun fit => if_neg (by omega), fun misfit => if_pos (by omega)⟩
    · next large =>
      exact ⟨fun fit => absurd fit (by omega), fun _ => (Varint.decode_further 0 _).1⟩
  | succ more ih =>
    rw [Varint.encode]
    split
    · next small =>
      have fit : n < (top.toNat + 1) * 128 ^ (more + 1) := calc
        n < 1 * 128 ^ 1 := small
        _ ≤ (top.toNat + 1) * 128 ^ (more + 1) :=
          Nat.mul_le_mul (Nat.le_add_left 1 _) (Nat.pow_le_pow_right (by decide) (by omega))
      rw [List.singleton_append, Varint.decode_end small]
      exact ⟨fun _ => if_neg (by omega), fun misfit => absurd fit misfit⟩
    · next large =>
      have high : n < (top.toNat + 1) * 128 ^ (more + 1) ↔
          n / 128 < (top.toNat + 1) * 128 ^ more := by
        rw [Nat.div_lt_iff_lt_mul (by decide), Nat.pow_succ, Nat.mul_assoc]
      obtain ⟨taken, refused⟩ := ih (n / 128)
      rw [high, List.cons_append, (Varint.decode_further more _).2]
      refine ⟨fun fit => ?_, fun misfit => by rw [refused misfit, Option.map_none]⟩
      rw [taken fit, Option.map_some]
      exact congrArg (fun m => some (m, rest)) (Nat.mod_add_div n 128)

end

theorem yields_length (n : Nat) : Yields Varint.decode64 (Varint.encode n) (n < lengthLimit) n :=
  (yields_varint (by decide) n).congr (by rfl)

theorem yields_number {n : Nat} (short : n < 2 ^ 32) :
    Yields Varint.decode32 (Varint.encode n) True n :=
  (yields_varint (by decide) n).congr (iff_of_true short trivial)

theorem yields_text (s : String) : Yields readText (writeText s) (StorableText s) s := by
  unfold readText writeText
  refine ((yields_length _).bind ?_).congr (and_iff_left trivial)
  intro rest
  refine ⟨fun _ => ?_, fun misfit => absurd trivial misfit⟩
  simp only [get, getThe, MonadStateOf.get, StateT.get, bind, StateT.bind, pure, Option.bind_some,
    List.take_left, List.drop_left, Nat.lt_irrefl, if_false, Text.ofUtf8?_utf8]
  rfl

theorem yields_flag (b : Bool) : Yields readFlag (writeFlag b) True b := by
  intro rest
  cases b <;> exact ⟨fun _ => rfl, fun misfit => absurd trivial misfit⟩

theorem yields_byte (b : UInt8) : Yields readByte [b] True b :=
  fun _ => ⟨fun _ => rfl, fun misfit => absurd trivial misfit⟩

theorem yields_count (n : UInt64) :
    Yields readCount (Varint.encode n.toNat) True n := by
  have number := (yields_length n.toNat).map UInt64.ofNat
  rw [UInt64.ofNat_toNat] at number
  exact number.congr (iff_of_true n.toNat_lt trivial)

/-! ## Parts -/

section
variable {α : Type} {read : Reader α} {write : α → List UInt8} {Storable : α → Prop}

theorem yields_option (write : α → List UInt8) {o : Option α}
    (each : ∀ a ∈ o, Yields read (write a) (Storable a) a) :
    Yields (readOption read) (writeOption write o) (∀ a ∈ o, Storable a) o := by
  unfold readOption
  cases o with
  | none => exact .congr (.bind (yields_flag false) (yields_pure none)) (by simp)
  | some a => exact .congr (.bind (yields_flag true) (.map (each a rfl) some)) (by simp)

theorem yields_many {l : List α} (each : ∀ a ∈ l, Yields read (write a) (Storable a) a) :
    Yields (readMany read l.length) (l.flatMap write) (∀ a ∈ l, Storable a) l := by
  induction l with
  | nil => exact (yields_pure []).congr (by simp)
  | cons a l ih =>
    have later := ih fun b there => each b (List.mem_cons_of_mem a there)
    exact ((each a List.mem_cons_self).bind (later.map (a :: ·))).congr (by simp)

/-- As many values as their number says. -/
theorem yields_counted {l : List α} {bytes : List UInt8} {fits : Prop}
    (many : Yields (readMany read l.length) bytes fits l) :
    Yields (readAll read) (Varint.encode l.length ++ bytes) (l.length < lengthLimit ∧ fits) l :=
  (yields_length l.length).bind many

theorem yields_all {l : List α} (each : ∀ a ∈ l, Yields read (write a) (Storable a) a) :
    Yields (readAll read) (writeAll write l) (StorableAll Storable l) l :=
  yields_counted (yields_many each)

end

theorem yields_modifiers (m : Modifiers) :
    Yields readModifiers (writeModifiers m) m.Storable m := by
  unfold writeModifiers
  rw [List.append_assoc, List.append_assoc]
  refine Yields.congr ((yields_flag m.casing).bind <|
    (yields_option writeText fun name _ => yields_text name).bind <|
    (yields_option writeText fun name _ => yields_text name).bind <|
    (yields_option (fun p => [p]) fun p _ => yields_byte p).map _) ?_
  simp [Modifiers.Storable]

theorem kindNumbered_kindNumber (kind : Kind) : kindNumbered (kindNumber kind) = some kind := by
  cases kind <;> rfl

/-! ## Pieces -/

theorem length_writePiece_pos (p : Piece) : 0 < (writePiece p).length := by
  have number := Varint.length_encode_pos
  cases p with
  | word text =>
    rw [writePiece, List.length_append]
    exact Nat.add_pos_left (number 0) _
  | group pieces value m =>
    simp only [writePiece, List.append_assoc, List.length_append]
    exact Nat.add_pos_left (number 1) _
  | reference kind name m =>
    simp only [writePiece, List.append_assoc, List.length_append]
    exact Nat.add_pos_left (number _) _

mutual

/-- The bytes of a group are more than those of the pieces in it, so that there are enough of them
to go down to the innermost group. -/
theorem yields_piece (depth : Nat) (p : Piece) (deep : (writePiece p).length ≤ depth) :
    Yields (readPiece depth) (writePiece p) p.Storable p := by
  cases depth with
  | zero => exact absurd deep (Nat.not_le.mpr (length_writePiece_pos p))
  | succ depth =>
    unfold readPiece
    cases p with
    | word text =>
      refine .congr (.bind (yields_number (by decide)) (.map (yields_text text) Piece.word)) ?_
      exact and_iff_right trivial
    | group pieces value m =>
      have numbered := Varint.length_encode_pos 1
      simp only [writePiece, List.append_assoc, List.length_append] at deep ⊢
      have inner := yields_pieces depth pieces (by omega)
      rw [← List.append_assoc (Varint.encode pieces.length)]
      refine .congr (.bind (yields_number (by decide)) <| .bind (yields_counted inner) <|
        .bind (yields_option writeText fun text _ => yields_text text) <|
        .map (yields_modifiers m) _) ?_
      simp only [Piece.Storable, true_and, and_assoc]
    | reference kind name m =>
      have number : kindNumber kind + 2 < 2 ^ 32 := by cases kind <;> decide
      rw [writePiece, List.append_assoc, Nat.add_comm]
      refine .congr (.bind (yields_number number) ?_) (and_iff_right trivial)
      dsimp only
      rw [kindNumbered_kindNumber]
      exact .bind (yields_text name) (.map (yields_modifiers m) _)

theorem yields_pieces (depth : Nat) (ps : List Piece) (deep : (writePieces ps).length ≤ depth) :
    Yields (readMany (readPiece depth) ps.length) (writePieces ps) (Piece.StorableEach ps) ps := by
  cases ps with
  | nil => exact yields_pure []
  | cons p ps =>
    rw [writePieces, List.length_append] at deep
    have first := yields_piece depth p (by omega)
    have later := yields_pieces depth ps (by omega)
    exact .bind first (.map later (p :: ·))

end

/-! ## Stores -/

/-- What is enough for a list is enough for each part of it. -/
theorem length_le_of_mem {α : Type} {write : α → List UInt8} {a : α} {l : List α} {depth : Nat}
    (there : a ∈ l) (deep : (writeAll write l).length ≤ depth) : (write a).length ≤ depth := by
  have part := (List.sublist_flatten_of_mem (List.mem_map_of_mem (f := write) there)).length_le
  rw [writeAll, List.length_append, List.flatMap_def] at deep
  exact Nat.le_trans part (by omega)

section
variable {depth : Nat}

theorem yields_rule (r : Rule) (deep : (writeRule r).length ≤ depth) :
    Yields (readRule depth) (writeRule r) r.Storable r := by
  unfold readRule writeRule
  simp only [writeRule, List.length_append] at deep
  refine .congr (.bind (yields_counted (yields_pieces depth r.pieces (by omega))) <|
    .map (yields_option writeText fun text _ => yields_text text) _) ?_
  simp only [Rule.Storable, and_assoc]

theorem yields_variation (v : Variation) (deep : (writeVariation v).length ≤ depth) :
    Yields (readVariation depth) (writeVariation v) v.Storable v := by
  unfold readVariation writeVariation
  simp only [writeVariation, List.length_append] at deep
  rw [List.append_assoc]
  refine .congr (.bind (yields_option writeText fun text _ => yields_text text) <|
    .bind (yields_option (fun n => Varint.encode n.toNat) fun n _ => yields_count n) <|
    .map (yields_all fun r there => yields_rule r (length_le_of_mem there (by omega))) _) ?_
  simp [Variation.Storable]

theorem yields_definition (d : Definition) (deep : (writeDefinition d).length ≤ depth) :
    Yields (readDefinition depth) (writeDefinition d) d.Storable d := by
  obtain ⟨name, kind, casing, variations⟩ := d
  have number : kindNumber kind < 2 ^ 32 := by cases kind <;> decide
  unfold readDefinition writeDefinition
  simp only [writeDefinition, List.length_append] at deep
  simp only [List.append_assoc]
  refine .congr (.bind (yields_text name) <| .bind (yields_number number) <|
    show Yields _ _ (StorableAll Variation.Storable variations) _ from ?_) ?_
  · rw [kindNumbered_kindNumber]
    refine .congr (.bind (yields_flag casing) <| .map (yields_all fun v there =>
      yields_variation v (length_le_of_mem there (by omega))) _) (and_iff_right trivial)
  · exact and_congr_right' (and_iff_right trivial)

theorem yields_table (t : Table Definition) (deep : (writeTable t).length ≤ depth) :
    Yields (readTable depth) (writeTable t) t.Storable t := by
  have entry (e : String × Definition) (there : e ∈ t.entries) :
      Yields (do return (← readText, ← readDefinition depth)) (writeText e.1 ++ writeDefinition e.2)
        (StorableText e.1 ∧ e.2.Storable) e := by
    have long := length_le_of_mem there deep
    rw [List.length_append] at long
    exact .bind (yields_text e.1) (.map (yields_definition e.2 (by omega)) (Prod.mk e.1))
  have table := (yields_all entry).map Table.ofList
  rwa [Table.ofList_entries] at table

theorem yields_store (s : Store) (deep : (encode s).length ≤ depth) :
    Yields (readStore depth) (encode s) s.Storable s := by
  unfold readStore encode
  simp only [encode, List.length_append] at deep
  rw [List.append_assoc]
  exact .bind (yields_table s.aliases (by omega)) <| .bind (yields_table s.slots (by omega)) <|
    .map (yields_table s.intents (by omega)) _

end

/-- Decoding takes a store that can be stored from the front of any bytes, and takes nothing where
another one was written. -/
theorem decode_append (s : Store) (rest : List UInt8) :
    (s.Storable → decode (encode s ++ rest) = some s) ∧
      (¬ s.Storable → decode (encode s ++ rest) = none) := by
  have long : (encode s).length ≤ (encode s ++ rest).length := by
    rw [List.length_append]
    exact Nat.le_add_right _ _
  obtain ⟨taken, refused⟩ := yields_store s long rest
  unfold decode
  exact ⟨fun fits => by rw [taken fits, Option.map_some],
    fun misfit => by rw [refused misfit, Option.map_none]⟩

/-- What a store is decoded as is that store. -/
theorem eq_of_decode {s other : Store} {rest : List UInt8}
    (decoded : decode (encode s ++ rest) = some other) : s = other := by
  obtain ⟨taken, refused⟩ := decode_append s rest
  by_cases fits : s.Storable
  · rw [taken fits] at decoded
    exact Option.some.inj decoded
  · rw [refused fits] at decoded
    cases decoded

/-- **A cache gives back its store.** A store is what its encoding is decoded as, whatever follows
it, unless a length in it is too large to be written in 64 bits. So no encoding starts with that of
another store. -/
theorem decode_encode (s : Store) :
    (∀ rest, decode (encode s ++ rest) = some s ↔ s.Storable) ∧
      (s.Storable →
        ∀ other, encode s <+: encode other ∨ encode other <+: encode s → other = s) := by
  constructor
  · intro rest
    obtain ⟨taken, refused⟩ := decode_append s rest
    refine ⟨fun decoded => ?_, taken⟩
    by_contra misfit
    rw [refused misfit] at decoded
    cases decoded
  · rintro fits other (⟨rest, whole⟩ | ⟨rest, whole⟩)
    · have decoded : decode (encode other ++ []) = some s := by
        rw [List.append_nil, ← whole]
        exact (decode_append s rest).1 fits
      exact eq_of_decode decoded
    · have decoded : decode (encode other ++ rest) = some s := by
        rw [whole, ← List.append_nil (encode s)]
        exact (decode_append s []).1 fits
      exact eq_of_decode decoded

/-- Nothing else is asked of a store: names may differ from their keys, a percentage and a count may
be as large as their bytes allow, and rules may be empty. -/
theorem decode_encode_odd : ∃ s : Store, s.Storable ∧ decode (encode s ++ [7]) = some s ∧
    ∀ other, encode other <+: encode s → other = s := by
  let inner : Piece := .group [.reference .slot "" ⟨true, some "", none, some 255⟩] none {}
  let rules : List Rule := [⟨[], none⟩, ⟨[.group [inner, .word ""] (some "v") {}], some ""⟩]
  let odd : Definition := ⟨"b", .intent, true, [⟨some "", some 18446744073709551615, rules⟩]⟩
  let s : Store := ⟨⟨[("a", odd)], by decide⟩, ∅, ∅⟩
  have fits : s.Storable := by
    refine ⟨?_, Table.storable_empty, Table.storable_empty⟩
    simp [s, odd, rules, inner, Table.Storable, Definition.Storable, Variation.Storable,
      Rule.Storable, Piece.Storable, Piece.StorableEach, Modifiers.Storable, StorableAll,
      StorableText, lengthLimit]
    decide
  obtain ⟨decodes, apart⟩ := decode_encode s
  exact ⟨s, fits, (decodes [7]).mpr fits, fun other front => apart fits other (.inr front)⟩

end Cache
end Phrasebook
