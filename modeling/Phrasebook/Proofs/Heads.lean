import Phrasebook.Definition.Printer
import Phrasebook.Proofs.Letters
import Phrasebook.Proofs.WellFormed

/-!
# Heads of definitions

The head of a declaration is written with its names as they are, and is prepared as a line before it
is read. It says what was written just when the names need no escapes.

* `Text.Kept`, `Text.eq_of_unescape`: where a part that is read out of a prepared line says what was
  written there, nothing in it was escaped;
* `Count.asked_digitsOf`: counts are read back;
* `Variation.read_prepared_head`: heads are, just when their names are bare.
-/

namespace Phrasebook

namespace Text

variable {s t kept raw later : List Char} {c d : Char}

/-! ## What is kept of a line -/

/-- What can be left of a text by cutting its comment. -/
structure Kept (s kept : List Char) : Prop where
  front : kept <+: s
  uncommented : beforeComment? kept = none

theorem beforeComment_prefix (h : beforeComment? s = none) (front : t <+: s) :
    beforeComment? t = none := by
  fun_induction beforeComment? t generalizing s with
  | case1 => rfl
  | case2 c rest ih =>
    obtain ⟨more, rfl⟩ := front
    rw [List.cons_append, List.cons_append, beforeComment?, Option.map_eq_none_iff] at h
    rw [Option.map_eq_none_iff]
    exact ih h (List.prefix_append _ _)
  | case3 rest =>
    obtain ⟨more, rfl⟩ := front
    rw [List.cons_append, beforeComment_cons fun same => absurd same (by decide), if_pos rfl] at h
    cases h
  | case4 c rest alone passes ih =>
    rw [Option.map_eq_none_iff]
    by_cases same : c = '\\'
    · rw [last_of_alone alone same]
      rfl
    · obtain ⟨more, rfl⟩ := front
      rw [List.cons_append, beforeComment_cons fun h => absurd h same, if_neg passes,
        Option.map_eq_none_iff] at h
      exact ih h (List.prefix_append _ _)

theorem uncommented_beforeComment (h : beforeComment? s = some kept) :
    beforeComment? kept = none := by
  fun_induction beforeComment? s generalizing kept with
  | case1 => cases h
  | case2 c rest ih =>
    obtain ⟨inner, found, rfl⟩ := Option.map_eq_some_iff.mp h
    rw [beforeComment?, ih found, Option.map_none]
  | case3 =>
    cases h
    rfl
  | case4 c rest alone passes ih =>
    obtain ⟨inner, found, rfl⟩ := Option.map_eq_some_iff.mp h
    have unescaped : c ≠ '\\' := fun same => by
      rw [last_of_alone alone same] at found
      cases found
    rw [beforeComment_cons fun same => absurd same unescaped, if_neg passes, ih found,
      Option.map_none]

theorem kept_withoutComment (s : List Char) : Kept s (withoutComment s) := by
  refine ⟨prefix_withoutComment s, ?_⟩
  unfold withoutComment
  split
  · next kept found =>
    exact beforeComment_prefix (uncommented_beforeComment found) (prefix_trimEnd kept)
  · next none => exact none

theorem Kept.escaped (h : Kept ('\\' :: c :: s) ('\\' :: d :: kept)) : c = d ∧ Kept s kept := by
  obtain ⟨more, whole⟩ := h.front
  have none := h.uncommented
  rw [beforeComment?, Option.map_eq_none_iff] at none
  cases whole
  exact ⟨rfl, ⟨more, rfl⟩, none⟩

/-- What a line begins with, it is read with, unless a backslash is there. -/
theorem Kept.step (h : Kept (c :: s) kept) (unescaped : c ≠ '\\')
    (here : plainSemicolons kept = d :: later) :
    c = d ∧ c ≠ ';' ∧ ∃ kept', Kept s kept' ∧ plainSemicolons kept' = later := by
  cases kept with
  | nil => cases here
  | cons e kept =>
    obtain ⟨rfl, front⟩ := List.cons_prefix_cons.mp h.front
    have alone : e = '\\' → kept = [] := fun same => absurd same unescaped
    have none := h.uncommented
    rw [beforeComment_cons alone] at none
    rw [plainSemicolons_cons alone] at here
    obtain ⟨rfl, rfl⟩ := List.cons.inj here
    split at none
    · cases none
    · next passes => exact ⟨rfl, passes, kept, ⟨front, Option.map_eq_none_iff.mp none⟩, rfl⟩

/-- Where a backslash is read, there is one. -/
theorem Kept.backslash (h : Kept s kept) (here : plainSemicolons kept = '\\' :: later) :
    s.head? = some '\\' := by
  cases kept with
  | nil => cases here
  | cons e kept =>
    obtain ⟨more, rfl⟩ := h.front
    by_cases same : e = '\\'
    · rw [same]
      rfl
    · rw [plainSemicolons_cons fun h => absurd h same] at here
      exact absurd (List.cons.inj here).1 same

/-! ## Parts that say what was written -/

theorem unescape_eq_nil : unescape raw = [] ↔ raw = [] := by
  fun_cases unescape raw <;> simp

/-- A character is read where it stands, or where it is escaped. -/
theorem unescape_eq_cons (whole : Whole raw) (h : unescape raw = c :: s) :
    ∃ rest, Whole rest ∧ unescape rest = s ∧
      (raw = '\\' :: c :: rest ∨ raw = c :: rest ∧ c ≠ '\\') := by
  fun_cases unescape raw with
  | case1 => cases h
  | case2 d rest =>
    obtain ⟨rfl, rfl⟩ := List.cons.inj h
    exact ⟨rest, whole, rfl, .inl rfl⟩
  | case3 d rest alone =>
    rw [unescape] at h
    · obtain ⟨rfl, rfl⟩ := List.cons.inj h
      by_cases same : d = '\\'
      · rw [last_of_alone alone same, same] at whole
        exact absurd rfl whole.1
      · exact ⟨rest, (whole_cons same rest).mp whole, rfl, .inr ⟨rfl, same⟩⟩
    · exact alone

/-- An escaped backslash is read where there is one. -/
theorem plainSemicolons_backslash (h : plainSemicolons kept = '\\' :: '\\' :: later) :
    ∃ kept', kept = '\\' :: '\\' :: kept' ∧ plainSemicolons kept' = later := by
  fun_cases plainSemicolons kept with
  | case1 => cases h
  | case2 rest => cases h
  | case3 d rest passes =>
    rw [plainSemicolons, if_neg passes] at h
    cases h
    exact ⟨rest, rfl, rfl⟩
  | case4 d rest alone =>
    by_cases same : d = '\\'
    · rw [last_of_alone alone same, plainSemicolons_cons fun _ => rfl] at h
      cases h
    · rw [plainSemicolons_cons fun h => absurd h same] at h
      exact absurd (List.cons.inj h).1 same

theorem eq_backslash_cons (front : (s ++ t).head? = some '\\') (next : t.head? ≠ some '\\') :
    ∃ rest, s = '\\' :: rest := by
  cases s with
  | nil => exact absurd front next
  | cons c rest => exact ⟨rest, by simpa using front⟩

/-- Backslashes that are read as they were written would never come to an end: each one that is read
takes two that were written. -/
theorem unescape_ne_backslashes {s kept raw : List Char} (n : Nat) (h : Kept (s ++ t) kept)
    (next : t.head? ≠ some '\\') (whole : Whole raw) (here : plainSemicolons kept = raw ++ later)
    (front : (List.replicate n '\\' ++ s).head? = some '\\') :
    unescape raw ≠ List.replicate n '\\' ++ s := by
  intro same
  obtain ⟨first, begun⟩ := List.head?_eq_some_iff.mp front
  obtain ⟨rest, whole', same', rfl | ⟨_, other⟩⟩ := unescape_eq_cons whole (same.trans begun)
  · obtain ⟨s, rfl⟩ := eq_backslash_cons (h.backslash here) next
    have shifted : first = List.replicate n '\\' ++ s := by
      rw [← List.singleton_append, ← List.append_assoc, ← List.replicate_succ',
        List.replicate_succ] at begun
      exact (List.cons.inj begun).2.symm
    obtain ⟨kept, rfl, here'⟩ := plainSemicolons_backslash here
    have front' : (s ++ t).head? = some '\\' := by
      obtain ⟨more, whole⟩ := h.front
      simp only [List.cons_append, List.cons.injEq, true_and] at whole
      rw [← whole]
      rfl
    obtain ⟨s, rfl⟩ := eq_backslash_cons front' next
    refine unescape_ne_backslashes (n + 1) h.escaped.2 next whole' here' rfl ?_
    rw [same', shifted, ← List.singleton_append, ← List.append_assoc, ← List.replicate_succ']
  · exact absurd rfl other
termination_by s.length

/-- A part that is read as it was written has nothing to escape. -/
theorem eq_of_unescape (h : Kept (s ++ t) kept) (next : t.head? ≠ some '\\') (whole : Whole raw)
    (here : plainSemicolons kept = raw ++ later) (same : unescape raw = s) :
    raw = s ∧ '\\' ∉ s ∧ ';' ∉ s ∧ ∃ kept', Kept t kept' ∧ plainSemicolons kept' = later := by
  induction s generalizing kept raw with
  | nil =>
    obtain rfl := unescape_eq_nil.mp same
    exact ⟨rfl, List.not_mem_nil, List.not_mem_nil, kept, h, here⟩
  | cons c s ih =>
    have plain : c ≠ '\\' := by
      rintro rfl
      exact unescape_ne_backslashes 0 h next whole here rfl same
    obtain ⟨rest, whole', same', escaped | ⟨rfl, -⟩⟩ := unescape_eq_cons whole same
    · rw [escaped] at here
      have front := h.backslash here
      rw [List.cons_append, List.head?_cons, Option.some.injEq] at front
      exact absurd front plain
    · obtain ⟨-, passes, kept', h', here'⟩ := h.step plain here
      obtain ⟨rfl, unescaped, uncommented, later⟩ := ih h' whole' here' same'
      exact ⟨rfl, by simp [plain.symm, unescaped], by simp [Ne.symm passes, uncommented], later⟩

/-! ## Names that need no escapes -/

/-- Nothing in the text is escaped where it is written as a part of a block. -/
def Bare (s : List Char) : Prop := ∀ c ∈ s, c ∉ partSpecials

theorem unescape_bare (h : Bare s) : unescape s = s := by
  have marked : '\\' ∈ partSpecials := by decide
  have escaped := unescape_escape marked s
  rwa [escape_eq_self h] at escaped

theorem part_bare {nests : Bool} (h : Bare s) : Block.Part nests s := by
  induction s with
  | nil => exact .nil
  | cons c s ih =>
    refine .plain (fun special => ?_) (ih fun d hd => h d (List.mem_cons_of_mem _ hd))
    have known : ['\\', '[', ']', '#', '?', '/'] ⊆ partSpecials := by decide
    exact h c List.mem_cons_self (known special)

/-- A part of a reference without a backslash or a semicolon is bare. -/
theorem bare_of_part (h : Block.Part false s) (unescaped : '\\' ∉ s) (uncommented : ';' ∉ s) :
    Bare s := by
  induction h with
  | nil => nofun
  | escaped => simp at unescaped
  | @plain c rest ordinary _ ih =>
    intro d hd
    rcases List.mem_cons.mp hd with rfl | hd
    · have other : d ≠ ';' := fun same => uncommented (same ▸ List.mem_cons_self)
      simp only [partSpecials, List.mem_cons, List.not_mem_nil, not_or] at ordinary ⊢
      grind
    · exact ih (fun there => unescaped (List.mem_cons_of_mem _ there))
        (fun there => uncommented (List.mem_cons_of_mem _ there)) d hd
  | run nested => cases nested

theorem splitAtMark?_plain {mark : Char} (plain : ∀ c ∈ s, c ≠ '\\' ∧ c ≠ mark)
    (unescaped : mark ≠ '\\') (t : List Char) :
    splitAtMark? mark (s ++ mark :: t) = some (s, t) := by
  induction s with
  | nil =>
    rw [List.nil_append, splitAtMark?, if_pos rfl]
    intro c rest same
    exact absurd same unescaped
  | cons c s ih =>
    obtain ⟨free, other⟩ := plain c List.mem_cons_self
    rw [List.cons_append, splitAtMark?, if_neg other,
      ih fun d hd => plain d (List.mem_cons_of_mem _ hd)]
    · rfl
    · intro d rest same
      exact absurd same free

/-! ## Numbers -/

/-- The number in digits. -/
def digitsOf (n : UInt64) : List Char := (toString n.toNat).toList

theorem digitsOf_eq (n : UInt64) : digitsOf n = Nat.toDigits 10 n.toNat := by
  rw [digitsOf, Nat.toString_eq_ofList_toDigits, String.toList_ofList]

theorem isDigit_of_mem_digitsOf {n : UInt64} (h : c ∈ digitsOf n) : c.isDigit = true := by
  rw [digitsOf_eq] at h
  exact Nat.isDigit_of_mem_toDigits (by decide) (by decide) h

/-- Characters that are no digits are not among them. -/
theorem ne_of_mem_digitsOf {n : UInt64} (h : c ∈ digitsOf n) (other : d.isDigit = false) :
    c ≠ d := by
  rintro rfl
  rw [isDigit_of_mem_digitsOf h] at other
  cases other

theorem digits?_digitsOf (n : UInt64) : digits? (digitsOf n) = some n.toNat := by
  have filled : (digitsOf n).isEmpty = false := by
    rw [digitsOf_eq, List.isEmpty_eq_false_iff]
    exact Nat.toDigits_ne_nil
  have digits : (digitsOf n).all Char.isDigit = true :=
    List.all_eq_true.mpr fun c hc => isDigit_of_mem_digitsOf hc
  have value := Nat.ofDigitChars_ten_toDigits (n := n.toNat)
  rw [Nat.ofDigitChars_eq_foldl, ← digitsOf_eq] at value
  rw [digits?, filled, digits, if_neg (by decide), value]

theorem word64?_digitsOf (n : UInt64) : word64? (digitsOf n) = some n := by
  have few : n.toNat ≤ 0xFFFFFFFFFFFFFFFF := Nat.le_of_lt_succ n.toNat_lt
  unfold word64?
  split
  · next rest same =>
    have sign : '+' ∈ digitsOf n := same ▸ List.mem_cons_self
    exact absurd rfl (ne_of_mem_digitsOf sign (by decide))
  · rw [digits?_digitsOf]
    simp [few]

theorem isBlank_of_isDigit (h : c.isDigit = true) : isBlank c = false := by
  simp only [Char.isDigit, Bool.and_eq_true, decide_eq_true_eq, ge_iff_le,
    UInt32.le_iff_toNat_le] at h
  have low : 48 ≤ c.toNat := h.1
  have high : c.toNat ≤ 57 := h.2
  simp [isBlank]
  omega

end Text

open Text

namespace Count

theorem read_digitsOf {n : UInt64} (positive : 1 ≤ n) : read (.ofList (digitsOf n)) = .ok n := by
  have visible : ∀ c ∈ digitsOf n, isBlank c = false :=
    fun c hc => isBlank_of_isDigit (isDigit_of_mem_digitsOf hc)
  have trimmed : trim (digitsOf n) = digitsOf n :=
    (trim_eq_self_iff fun c hc => visible c (List.mem_of_getLast? hc)).mpr
      fun c hc => visible c (List.mem_of_head? hc)
  have more : 0 < n := UInt64.lt_iff_toNat_lt.mpr (UInt64.le_iff_toNat_le.mp positive)
  rw [read, String.toList_ofList, trimmed, word64?_digitsOf]
  exact if_pos more

theorem written_plain {s : List Char} (plain : ']' ∉ s) (t : List Char) :
    written none (s ++ t) = written none t := by
  induction s with
  | nil => rfl
  | cons c s ih =>
    obtain ⟨other, rest⟩ := not_or.mp (mt List.mem_cons.mpr plain)
    rw [List.cons_append, written, ih rest]
    exact fun _ same => absurd same.symm other

theorem written_some {s before : List Char} (plain : ')' ∉ s) (t : List Char) :
    written (some before) (s ++ ')' :: t) = (before.reverse ++ s) :: written none t := by
  induction s generalizing before with
  | nil => simp [written]
  | cons c s ih =>
    obtain ⟨other, rest⟩ := not_or.mp (mt List.mem_cons.mpr plain)
    rw [List.cons_append, written, if_neg (Ne.symm other), ih rest]
    simp

/-- A count directly behind the block of a line is the one that it asks for. -/
theorem asked_digitsOf {block : List Char} (plain : ']' ∉ block) {n : UInt64} (positive : 1 ≤ n) :
    asked (.ofList (block ++ ']' :: '(' :: (digitsOf n ++ [')']))) = .ok (some n) := by
  have inside : ')' ∉ digitsOf n := fun there => ne_of_mem_digitsOf there (by decide) rfl
  have one : written none (block ++ ']' :: '(' :: (digitsOf n ++ [')'])) = [digitsOf n] := by
    rw [written_plain plain, written, written_some inside]
    simp [written]
  simp [asked, one, read_digitsOf positive, bind, Except.bind, pure, Except.pure]

end Count

/-! ## Heads -/

namespace Variation

/-- The block of the head that a definition writes for a variation: its names are as they are. -/
def parts (kind : Kind) (name : String) (casing : Bool) (v : Variation) : Block.Parts where
  kind := some kind
  casing := casing
  name := name.toList
  variation := v.name.map String.toList
  inclusion := none

/-- What is written behind the block. -/
def asked (v : Variation) : List Char :=
  match v.count with
  | some n => '(' :: (digitsOf n ++ [')'])
  | none => []

def head (kind : Kind) (name : String) (casing : Bool) (v : Variation) : List Char :=
  (v.parts kind name casing).text ++ v.asked

/-- The names in the head mean themselves. -/
structure Bare (name : String) (casing : Bool) (v : Variation) : Prop where
  title : Text.Bare name.toList
  unmarked : casing = false → name.toList.head? ≠ some '&'
  variation : ∀ n, v.name = some n → Text.Bare n.toList

variable {kind : Kind} {name : String} {casing : Bool} {v : Variation}

theorem getLast?_count (n : UInt64) : ('(' :: (digitsOf n ++ [')'])).getLast? = some ')' := by
  rw [← List.cons_append, List.getLast?_concat]

theorem trim_asked (v : Variation) : trim v.asked = v.asked := by
  unfold asked
  cases v.count with
  | none => rfl
  | some n =>
    refine (trim_eq_self_iff fun c last => ?_).mpr fun c front => ?_
    · rw [getLast?_count] at last
      cases last
      decide
    · cases front
      decide

theorem readCount_asked (headed : v.Headed kind) {block : List Char} (plain : ']' ∉ block) :
    Declaration.readCount kind (.ofList (block ++ ']' :: v.asked)) (trim v.asked) =
      .ok v.count := by
  rw [trim_asked]
  unfold asked
  cases counted : v.count with
  | none => rfl
  | some n =>
    obtain ⟨rfl, positive⟩ := headed.counted n counted
    have inside : ((digitsOf n).any fun c => decide (c = '(') || decide (c = ')')) = false := by
      refine List.any_eq_false.mpr fun c hc => ?_
      simp [ne_of_mem_digitsOf hc (show Char.isDigit '(' = false by decide),
        ne_of_mem_digitsOf hc (show Char.isDigit ')' = false by decide)]
    have counts := Count.asked_digitsOf plain positive
    dsimp only
    generalize String.ofList (block ++ ']' :: '(' :: (digitsOf n ++ [')'])) = line at counts
    simp [Declaration.readCount, counts, getLast?_count, inside, bind, Except.bind, pure,
      Except.pure]

theorem grammatical (bare : v.Bare name casing) (headed : v.Headed kind)
    (named : allBlank name.toList = false) : (v.parts kind name casing).Grammatical where
  name := part_bare bare.title
  unmarked := bare.unmarked
  named := by
    have title : (v.parts kind name casing).title = name.toList := unescape_bare bare.title
    rwa [title]
  variation := by
    intro text given
    obtain ⟨n, varied, rfl⟩ := Option.map_eq_some_iff.mp given
    have own := bare.variation n varied
    refine ⟨part_bare own, ?_⟩
    rw [unescape_bare own]
    simpa using headed.named n varied
  group := nofun
  percent := nofun

theorem head_eq : v.head kind name casing =
    (Block.Parts.opening (some kind) ++ (v.parts kind name casing).inside) ++ ']' :: v.asked := by
  simp [head, Block.Parts.text, parts]

theorem plain_of_bare (bare : v.Bare name casing) :
    ∀ c ∈ Block.Parts.opening (some kind) ++ (v.parts kind name casing).inside,
      c ≠ '\\' ∧ c ≠ ']' ∧ c ≠ ';' := by
  have own : ∀ {s}, Text.Bare s → ∀ c ∈ s, c ≠ '\\' ∧ c ≠ ']' ∧ c ≠ ';' := by
    intro s bare c hc
    have free := bare c hc
    simp only [partSpecials, List.mem_cons, List.not_mem_nil, not_or] at free
    grind
  intro c hc
  simp only [Block.Parts.opening, Block.Parts.inside, Block.Parts.rest, parts,
    Block.Parts.writtenInclusion, List.append_nil, List.mem_append] at hc
  rcases hc with opens | marks | titled | varied
  · cases kind <;> simp [Kind.sigil] at opens <;> grind
  · cases casing with
    | true =>
      cases List.mem_singleton.mp marks
      decide
    | false => cases marks
  · exact own bare.title c titled
  · cases same : v.name with
    | none => simp [same, Block.Parts.writtenVariation] at varied
    | some n =>
      simp only [same, Option.map_some, Block.Parts.writtenVariation, List.mem_cons] at varied
      rcases varied with rfl | varied
      · decide
      · exact own (bare.variation n same) c varied

theorem plain_asked (v : Variation) : ∀ c ∈ v.asked, c ≠ '\\' ∧ c ≠ ';' := by
  intro c hc
  unfold asked at hc
  split at hc
  · simp only [List.mem_cons, List.mem_append, List.not_mem_nil, or_false] at hc
    rcases hc with rfl | digit | rfl
    · decide
    · exact ⟨ne_of_mem_digitsOf digit (by decide), ne_of_mem_digitsOf digit (by decide)⟩
    · decide
  · cases hc

theorem prepare_head (bare : v.Bare name casing) :
    prepare (v.head kind name casing) = v.head kind name casing := by
  refine prepare_eq (Spelling.prepared_plain fun c hc => ?_)
  rw [head_eq] at hc
  rcases List.mem_append.mp hc with front | behind
  · have free := plain_of_bare bare c front
    exact ⟨free.1, free.2.2⟩
  · rcases List.mem_cons.mp behind with rfl | behind
    · decide
    · exact plain_asked v c behind

theorem block_parts (bare : v.Bare name casing) :
    (v.parts kind name casing).block = ⟨some kind, name, ⟨casing, v.name, none, none⟩⟩ := by
  have title : String.ofList (v.parts kind name casing).title = name := by
    change String.ofList (unescape name.toList) = name
    rw [unescape_bare bare.title, String.ofList_toList]
  have variation : (v.name.map String.toList).map (fun n => String.ofList (unescape n)) =
      v.name := by
    cases same : v.name with
    | none => rfl
    | some n =>
      simp only [Option.map_some]
      rw [unescape_bare (bare.variation n same), String.ofList_toList]
  simp only [Block.Parts.block, title]
  simp only [parts, variation]
  rfl

/-- A head with bare names says what it was written for. -/
theorem read_head (bare : v.Bare name casing) (headed : v.Headed kind)
    (named : allBlank name.toList = false) : Declaration.read (v.head kind name casing) =
      .ok ⟨kind, name, casing, ⟨v.name, v.count, []⟩⟩ := by
  let front := Block.Parts.opening (some kind) ++ (v.parts kind name casing).inside
  have plain : ∀ c ∈ front, c ≠ '\\' ∧ c ≠ ']' ∧ c ≠ ';' := plain_of_bare bare
  have grammatical : (v.parts kind name casing).Grammatical := grammatical bare headed named
  have line : v.head kind name casing = front ++ ']' :: v.asked := head_eq
  have split : splitAtMark? ']' (front ++ ']' :: v.asked) = some (front, v.asked) :=
    splitAtMark?_plain (fun c hc => ⟨(plain c hc).1, (plain c hc).2.1⟩) (by decide) _
  have block :
      Block.read (front ++ [']']) = .ok ⟨some kind, name, ⟨casing, v.name, none, none⟩⟩ := by
    rw [List.append_assoc, ← block_parts bare]
    refine Block.read_eq_ok_iff.mpr ⟨some kind, _, rfl, grammatical.whole_inside, ?_⟩
    exact (Block.ofInside_iff grammatical.whole_inside).mpr ⟨_, grammatical, rfl, rfl, rfl⟩
  have count := readCount_asked headed fun there => (plain ']' there).2.1 rfl
  rw [line, Declaration.read, split]
  simp only [block, bind, Except.bind, Option.isSome_none, Bool.false_eq_true, if_false, count]
  rfl

end Variation

/-! ## Heads that are read -/

namespace Declaration

/-- What is read as a declaration begins with a block, and is named by its parts. -/
theorem parts_of_read {text : List Char} {d : Declaration} (h : read text = .ok d) :
    ∃ (p : Block.Parts) (after : List Char), p.Grammatical ∧ text = p.text ++ after ∧
      p.kind = some d.kind ∧ p.casing = d.casing ∧ p.inclusion = none ∧
      String.ofList (unescape p.name) = d.name ∧
      p.variation.map (fun v => String.ofList (unescape v)) = d.variation.name := by
  simp only [read] at h
  split at h
  · cases h
  · next before after split =>
    obtain ⟨block, reads, h⟩ := bind_eq_ok.mp h
    obtain ⟨opened, inner, same, whole, inside⟩ := Block.read_eq_ok_iff.mp reads
    obtain ⟨p, grammatical, rfl, rfl, rfl⟩ := (Block.ofInside_iff whole).mp inside
    split at h
    · cases h
    · next kind known =>
      split at h
      · cases h
      · next groupless =>
        obtain ⟨count, _, h⟩ := bind_eq_ok.mp h
        cases h
        have known : p.kind = some kind := known
        refine ⟨p, after, grammatical, ?_, known, rfl, ?_, ?_, rfl⟩
        · rw [eq_of_splitAtMark? split, Block.Parts.text, ← same]
          simp
        · simpa [Block.Parts.block] using groupless
        · simp [Block.Parts.block, Block.Parts.title, Block.Parts.nests, known]

end Declaration

namespace Block.Parts

theorem text_append (p : Parts) {kind : Kind} (known : p.kind = some kind)
    (groupless : p.inclusion = none) (after : List Char) : p.text ++ after =
      kind.sigil :: '[' :: ((if p.casing then ['&'] else []) ++
        (p.name ++ (writtenVariation p.variation ++ ']' :: after))) := by
  simp [text, inside, rest, opening, known, groupless, writtenInclusion]

end Block.Parts

theorem Text.whole_of_part {nests : Bool} {s : List Char} (h : Block.Part nests s) : Whole s := by
  have whole := (whole_append h.paired []).mpr trivial
  rwa [List.append_nil] at whole

namespace Variation

variable {kind : Kind} {name : String} {casing : Bool} {v : Variation}

theorem head_of_variation (variation : Option (List Char)) (t : List Char) :
    (Block.Parts.writtenVariation variation ++ ']' :: t).head? ≠ some '\\' := by
  cases variation with
  | none => nofun
  | some n => nofun

/-- An ampersand that was written is read as one, and one that is read was written: the name that is
read does not start with it. -/
theorem kept_behind_mark {p : Block.Parts} (grammatical : p.Grammatical)
    {written kept later : List Char}
    (behind : Kept ((if casing then ['&'] else []) ++ written) kept)
    (reads : plainSemicolons kept = (if p.casing then ['&'] else []) ++ (p.name ++ later))
    (cased : casing = false → p.casing = false) :
    ∃ rest, Kept written rest ∧ plainSemicolons rest = p.name ++ later := by
  cases casing with
  | false =>
    rw [cased rfl] at reads
    exact ⟨_, behind, reads⟩
  | true =>
    cases marked : p.casing with
    | true =>
      rw [marked] at reads
      obtain ⟨-, -, rest, kept, reads⟩ := behind.step (by decide) reads
      exact ⟨rest, kept, reads⟩
    | false =>
      obtain ⟨c, title, front⟩ := List.exists_cons_of_ne_nil grammatical.name_ne_nil
      rw [marked, front] at reads
      obtain ⟨rfl, -⟩ := behind.step (by decide) reads
      exact absurd (by rw [front, List.head?_cons]) (grammatical.unmarked marked)

/-- A head that is read as it was written has bare names. -/
theorem bare_of_read {d : Declaration}
    (h : Declaration.read (prepare (v.head kind name casing)) = .ok d) (known : d.kind = kind)
    (titled : d.name = name) (cased : casing = false → d.casing = false)
    (varied : d.variation.name = v.name) : v.Bare name casing := by
  obtain ⟨p, after, grammatical, text, kind', casing', groupless, title, variation⟩ :=
    Declaration.parts_of_read h
  have kept := kept_withoutComment (v.head kind name casing)
  rw [prepare, p.text_append kind' groupless, known] at text
  rw [head, (v.parts kind name casing).text_append rfl rfl] at kept text
  have unescaped : kind.sigil ≠ '\\' := by cases kind <;> decide
  obtain ⟨-, -, _, opened, block⟩ := kept.step unescaped text
  obtain ⟨-, -, _, inner, within⟩ := opened.step (by decide) block
  have inside : ∃ rest, Kept (name.toList ++ (Block.Parts.writtenVariation
      (v.name.map String.toList) ++ ']' :: v.asked)) rest ∧ _ :=
    kept_behind_mark grammatical inner within fun unmarked => casing'.trans (cased unmarked)
  have own : unescape p.name = name.toList := by
    rw [← titled, ← title, String.toList_ofList]
  have part : Block.Part false p.name := by
    have name := grammatical.name
    rwa [Block.Parts.nests, kind'] at name
  obtain ⟨rest, kept, text⟩ := inside
  obtain ⟨same, plain, uncommented, rest, kept, text⟩ :=
    eq_of_unescape kept (head_of_variation _ _) (whole_of_part part) text own
  rw [same] at part
  refine ⟨bare_of_part part plain uncommented, fun unmarked => ?_, fun n given => ?_⟩
  · rw [← same]
    exact grammatical.unmarked (casing'.trans (cased unmarked))
  · rw [varied, given] at variation
    obtain ⟨raw, known, meant⟩ := Option.map_eq_some_iff.mp variation
    have part : Block.Part false raw := by
      have part := (grammatical.variation raw known).1
      rwa [Block.Parts.nests, kind'] at part
    rw [known, Block.Parts.writtenVariation, List.cons_append] at text
    rw [given, Option.map_some, Block.Parts.writtenVariation, List.cons_append] at kept
    obtain ⟨-, -, rest, kept, text⟩ := kept.step (by decide) text
    have own : unescape raw = n.toList := by rw [← meant, String.toList_ofList]
    obtain ⟨same, plain, uncommented, -⟩ :=
      eq_of_unescape kept (by simp) (whole_of_part part) text own
    rw [same] at part
    exact bare_of_part part plain uncommented

/-- A head is read as what it was written for just when its names are bare. -/
theorem read_prepared_head (headed : v.Headed kind) (named : allBlank name.toList = false) :
    Declaration.read (prepare (v.head kind name casing)) =
      .ok ⟨kind, name, casing, ⟨v.name, v.count, []⟩⟩ ↔ v.Bare name casing := by
  constructor
  · intro h
    exact bare_of_read h rfl rfl id rfl
  · intro bare
    rw [prepare_head bare]
    exact read_head bare headed named

end Variation
end Phrasebook
