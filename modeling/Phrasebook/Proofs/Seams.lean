import Phrasebook.Proofs.Tokens

/-!
# Rules one behind the other

A rule is read from front to back, and all that is open at a place in it is the word that was begun.
Behind a blank, and behind the bracket that closes a block, there is none: there the text can be cut
in two, and each part be read on its own.

* `opening?_append`, `throughClosing?_append`: a block of a text is one of every longer text;
* `Bracketed`, `Reads.last_block`: texts that end with a block;
* `Seam`, `readPieces_append`: where a text can be cut in two, and what is read there;
* `Rule.read_seam`: the rule of the whole has the pieces of both parts.
-/

namespace Phrasebook

open Text

variable {a s t word inside inner after marks : List Char} {c : Char} {depth : Nat}
  {pieces : List Piece}

/-! ## Blocks in longer texts -/

theorem opening?_append (opens : opening? s = some (marks, inside)) (t : List Char) :
    opening? (s ++ t) = some (marks, inside ++ t) := by
  obtain ⟨kind, rfl, rfl⟩ := Block.opening_of_opening? opens
  cases kind with
  | none => rfl
  | some kind => exact opening?_sigil kind

theorem opening?_append_none (closed : opening? (c :: s) = none)
    (next : s = [] → t.head? ≠ some '[') : opening? (c :: (s ++ t)) = none := by
  cases s with
  | nil =>
    apply opening?_eq_none _ (next rfl)
    rintro rfl
    cases closed
  | cons d s =>
    unfold opening? at closed ⊢
    split at closed <;> simp_all

theorem throughClosing?_append (closes : throughClosing? depth s = some (inner, after))
    (t : List Char) : throughClosing? depth (s ++ t) = some (inner, after ++ t) := by
  fun_induction throughClosing? depth s generalizing inner after with
  | case1 => cases closes
  | case2 depth c rest ih =>
    obtain ⟨parts, found, same⟩ := Option.map_eq_some_iff.mp closes
    cases same
    exact Option.map_eq_some_iff.mpr ⟨_, ih found, rfl⟩
  | case3 depth c rest alone here =>
    cases closes
    obtain ⟨rfl, rfl⟩ : c = ']' ∧ depth = 0 := by simpa using here
    simp [throughClosing?]
  | case4 depth c rest alone passes ih =>
    obtain ⟨parts, found, same⟩ := Option.map_eq_some_iff.mp closes
    cases same
    have unescaped : c ≠ '\\' := by
      rintro rfl
      rw [last_of_alone alone rfl] at found
      cases found
    have passed := walk_throughClosing?.passed depth c (rest ++ t) unescaped (by simpa using passes)
    rw [List.cons_append, passed, ih found]
    rfl

/-! ## Where a block ends -/

theorem Text.whole_single (unescaped : c ≠ '\\') : Whole [c] :=
  (whole_cons unescaped []).mpr trivial

theorem Text.Whole.unescaped (whole : Whole (c :: s)) (alone : c = '\\' → s = []) : c ≠ '\\' := by
  rintro rfl
  obtain rfl := alone rfl
  exact whole.1 rfl

/-- A block is passed without an escape left open. -/
theorem whole_of_throughClosing? (opens : opening? s = some (marks, inside))
    (closes : throughClosing? 0 inside = some (inner, after)) :
    s = (marks ++ inner) ++ after ∧ marks ++ inner ≠ [] ∧ Whole (marks ++ inner) := by
  obtain ⟨kind, rfl, rfl⟩ := Block.opening_of_opening? opens
  obtain ⟨body, rfl, -, whole⟩ := level_of_throughClosing? closes
  have inner : Whole (body ++ [']']) := (whole.append _).mpr (whole_single (by decide))
  refine ⟨by rw [eq_of_throughClosing? closes, ← List.append_assoc], by simp, ?_⟩
  cases kind with
  | none => exact (whole_cons (by decide) _).mpr inner
  | some kind =>
    have unescaped : kind.sigil ≠ '\\' := by cases kind <;> decide
    exact (whole_cons unescaped _).mpr ((whole_cons (by decide) _).mpr inner)

/-- The last character is a bracket that closes. -/
def Bracketed (a : List Char) : Prop := ∃ body, a = body ++ [']'] ∧ Whole body

namespace Bracketed

theorem ne_nil (closed : Bracketed a) : a ≠ [] := by
  obtain ⟨body, rfl, -⟩ := closed
  exact List.append_ne_nil_of_right_ne_nil _ (List.cons_ne_nil _ _)

theorem whole (closed : Bracketed a) : Whole a := by
  obtain ⟨body, rfl, through⟩ := closed
  exact (through.append _).mpr (whole_single (by decide))

/-- What closes a text closes the rest of it, if there is one. -/
theorem rest (front : List Char) (closed : Bracketed (front ++ s)) (whole : Whole front) :
    s = [] ∨ Bracketed s := by
  obtain ⟨body, same, through⟩ := closed
  rcases List.eq_nil_or_concat s with rfl | ⟨s', d, rfl⟩
  · exact .inl rfl
  · rw [List.concat_eq_append, ← List.append_assoc] at same
    obtain ⟨rfl, last⟩ := List.append_inj' same rfl
    exact .inr ⟨s', by rw [List.concat_eq_append, last], (whole.append s').mp through⟩

theorem cons (closed : Bracketed (c :: s)) (unescaped : c ≠ '\\') (inside : c ≠ ']') :
    Bracketed s := by
  rcases closed.rest [c] (whole_single unescaped) with rfl | later
  · obtain ⟨body, same, -⟩ := closed
    have same : [] ++ [c] = body ++ [']'] := same
    exact absurd (List.cons.inj (List.append_inj' same rfl).2).1 inside
  · exact later

theorem escaped (closed : Bracketed ('\\' :: c :: s)) : Bracketed s := by
  rcases closed.rest ['\\', c] trivial with rfl | later
  · obtain ⟨body, same, whole⟩ := closed
    have same : ['\\'] ++ [c] = body ++ [']'] := same
    obtain ⟨rfl, -⟩ := List.append_inj' same rfl
    exact absurd rfl whole.1
  · exact later

end Bracketed

theorem flush_append (word : List Char) (pieces later : List Piece) :
    flush word (pieces ++ later) = flush word pieces ++ later := by
  unfold flush
  split <;> rfl

/-- In a text that can be read, this bracket is the one of the last block, and no word follows. -/
theorem Reads.last_block (reads : Reads word a pieces) (closed : Bracketed a) :
    ∃ front last, pieces = front ++ [last] ∧ ∀ text, last ≠ .word text := by
  have block {p : Piece} (unlike : ∀ text, p ≠ .word text) {after word : List Char}
      {later : List Piece} (reads : Reads [] after later) (ends : after = [] ∨ Bracketed after)
      (ih : Bracketed after → ∃ front last, later = front ++ [last] ∧ ∀ text, last ≠ .word text) :
      ∃ front last, flush word (p :: later) = front ++ [last] ∧ ∀ text, last ≠ .word text := by
    rcases ends with rfl | closed
    · obtain rfl := reads_nil.mp reads
      exact ⟨_, p, flush_append word [] [p], unlike⟩
    · obtain ⟨front, last, rfl, unlike⟩ := ih closed
      exact ⟨_, last, flush_append word (p :: front) [last], unlike⟩
  induction reads with
  | nil => exact absurd rfl closed.ne_nil
  | escaped _ ih => exact ih closed.escaped
  | reference opens closes _ _ later ih =>
    obtain ⟨rfl, -, whole⟩ := whole_of_throughClosing? opens closes
    exact block (by simp) later (closed.rest _ whole) ih
  | group opens closes _ _ _ _ later _ ih =>
    obtain ⟨rfl, -, whole⟩ := whole_of_throughClosing? opens closes
    exact block (by simp) later (closed.rest _ whole) ih
  | blank _ blank _ ih =>
    obtain ⟨-, inside, unescaped⟩ := ordinary_of_isBlank blank
    obtain ⟨front, last, rfl, unlike⟩ := ih (closed.cons unescaped inside)
    exact ⟨_, last, flush_append _ front [last], unlike⟩
  | char alone _ _ inside _ ih => exact ih (closed.cons (closed.whole.unescaped alone) inside)

/-! ## Reading on -/

/-- No word is open behind the first text, or the second one ends it. -/
def Seam (word a t : List Char) : Prop :=
  (∀ c ∈ t.head?, isBlank c = true) ∨ (a = [] ∧ word = []) ∨ Bracketed a

/-- The rest of the first text meets the second one as the whole of it does, as long as a bracket
that closes leaves no word open. -/
theorem Seam.further {word' : List Char} (front : List Char) (seam : Seam word (front ++ s) t)
    (some : front ≠ []) (whole : Whole front) (shut : Bracketed front → word' = []) :
    Seam word' s t := by
  rcases seam with blank | ⟨none, -⟩ | closed
  · exact .inl blank
  · exact absurd (List.append_eq_nil_iff.mp none).1 some
  · rcases closed.rest _ whole with rfl | later
    · rw [List.append_nil] at closed
      exact .inr (.inl ⟨rfl, shut closed⟩)
    · exact .inr (.inr later)

/-- A word that is open ends at a seam. -/
theorem readPieces_seam (seam : Seam word [] t) (text : String) :
    readPieces text word t = (readPieces text [] t).map (flush word [] ++ ·) := by
  rcases seam with blank | ⟨-, rfl⟩ | closed
  · cases t with
    | nil =>
      rw [readPieces, readPieces]
      exact congrArg Except.ok (List.append_nil _).symm
    | cons c t =>
      have first : isBlank c = true := blank c rfl
      rw [readPieces_blank first, readPieces_blank first]
      cases readPieces text [] t with
      | error e => rfl
      | ok later => exact congrArg Except.ok (flush_append word [] later)
  · cases readPieces text [] t <;> rfl
  · exact absurd rfl closed.ne_nil

theorem map_append {later : List Piece} {f : List Piece → List Piece} (x : Outcome (List Piece))
    (keeps : ∀ behind, f (later ++ behind) = f later ++ behind) :
    (x.map (later ++ ·)).map f = x.map (f later ++ ·) := by
  cases x with
  | error e => rfl
  | ok behind => exact congrArg Except.ok (keeps behind)

/-- What is read of two texts one behind the other: the pieces of the first, and then what is read
of the second. -/
theorem readPieces_append (reads : Reads word a pieces) (whole : Whole a) (seam : Seam word a t)
    (text : String) :
    readPieces text word (a ++ t) = (readPieces text [] t).map (pieces ++ ·) := by
  induction reads with
  | nil => exact readPieces_seam seam text
  | @escaped word c rest _ _ ih =>
    have further : Seam (c :: word) rest t := seam.further ['\\', c] (by simp) trivial
      fun closed => absurd rfl closed.escaped.ne_nil
    rw [List.cons_append, List.cons_append, readPieces, ih whole further]
  | reference opens closes block known _ ih =>
    obtain ⟨rfl, filled, through⟩ := whole_of_throughClosing? opens closes
    have further : Seam [] _ t := seam.further _ filled through fun _ => rfl
    have closes := throughClosing?_append closes t
    rw [readPieces_reference (opening?_append opens t) closes block known,
      ih ((through.append _).mp whole) further]
    exact map_append _ fun behind => flush_append _ (_ :: _) behind
  | group opens closes block known named some _ _ ih =>
    obtain ⟨rfl, filled, through⟩ := whole_of_throughClosing? opens closes
    have further : Seam [] _ t := seam.further _ filled through fun _ => rfl
    have closes := throughClosing?_append closes t
    rw [readPieces_group (opening?_append opens t) closes block known
        (readPieces_of_reads named _) some,
      ih ((through.append _).mp whole) further]
    exact map_append _ fun behind => flush_append _ (_ :: _) behind
  | @blank word c rest later _ blank _ ih =>
    obtain ⟨-, inside, unescaped⟩ := ordinary_of_isBlank blank
    have through := whole_single unescaped
    have further : Seam [] rest t := seam.further [c] (by simp) through fun _ => rfl
    rw [List.cons_append, readPieces_blank blank, ih ((whole_cons unescaped rest).mp whole) further]
    exact map_append _ fun behind => flush_append _ _ behind
  | @char word c rest _ alone closed visible inside _ ih =>
    have unescaped := whole.unescaped alone
    have through := whole_single unescaped
    have unclosed : ¬ Bracketed [c] := fun closed =>
      absurd rfl (closed.cons unescaped inside).ne_nil
    have further : Seam (c :: word) rest t := seam.further [c] (by simp) through
      fun closed => absurd closed unclosed
    -- even if the character is a sigil, no bracket stands behind it where the texts meet
    have closed' : opening? (c :: (rest ++ t)) = none := by
      apply opening?_append_none closed
      rintro rfl next
      rcases seam with blank | ⟨none, -⟩ | closed
      · cases blank '[' next
      · cases none
      · exact unclosed closed
    have alone' : c = '\\' → rest ++ t = [] := fun same => absurd same unescaped
    rw [List.cons_append, readPieces_char alone' closed' visible inside,
      ih ((whole_cons unescaped rest).mp whole) further]

theorem reads_append {all : List Piece} (reads : Reads word a pieces) (whole : Whole a)
    (seam : Seam word a t) :
    Reads word (a ++ t) all ↔ ∃ behind, Reads [] t behind ∧ all = pieces ++ behind := by
  rw [← @readPieces_eq_ok "", readPieces_append reads whole seam, map_eq_ok]
  simp only [readPieces_eq_ok, eq_comm (b := all)]

/-- Blanks in front of a text are skipped. -/
theorem reads_blanks (blank : allBlank t = true) :
    Reads [] (t ++ s) pieces ↔ Reads [] s pieces := by
  induction t with
  | nil => rfl
  | cons c t ih =>
    obtain ⟨first, later⟩ : isBlank c = true ∧ allBlank t = true := by simpa [allBlank] using blank
    rw [List.cons_append, reads_blank first]
    constructor
    · rintro ⟨_, reads, rfl⟩
      exact (ih later).mp reads
    · intro reads
      exact ⟨pieces, (ih later).mpr reads, rfl⟩

/-! ## Rules -/

namespace Rule

variable {a b w : String} {x z : Rule}

/-- What can be read behind a rule is read as if it stood alone, and it need not be anything. -/
theorem read_eq_ok_append (first : read a = .ok x) (whole : Whole a.toList)
    (blank : allBlank w.toList = true) (apart : w ≠ "" ∨ Bracketed a.toList) :
    read (a ++ w ++ b) = .ok z ↔
      ∃ behind, Reads [] b.toList behind ∧ z = ⟨x.pieces ++ behind, none⟩ := by
  obtain ⟨reads, some, -⟩ := read_eq_ok.mp first
  have seam : Seam [] a.toList (w.toList ++ b.toList) := by
    rcases apart with filled | closed
    · obtain ⟨c, w', same⟩ := List.exists_cons_of_ne_nil (mt String.toList_eq_nil_iff.mp filled)
      rw [same] at blank ⊢
      refine .inl fun d front => ?_
      cases front
      exact List.all_eq_true.mp blank c List.mem_cons_self
    · exact .inr (.inr closed)
  have together : (a ++ w ++ b).toList = a.toList ++ (w.toList ++ b.toList) := by simp
  rw [read_eq_ok, together, reads_append reads whole seam]
  constructor
  · rintro ⟨⟨behind, later, same⟩, -, none⟩
    exact ⟨behind, (reads_blanks blank).mp later, by rw [← same, ← none]⟩
  · rintro ⟨behind, later, rfl⟩
    exact ⟨⟨behind, (reads_blanks blank).mpr later, rfl⟩, by simp [some], rfl⟩

/-- **Rules one behind the other.** Behind a text that is read as a rule, and in which no backslash
is left alone at the end, any text can stand after some blanks, or right behind the bracket of the
last block. The whole is then a rule just when the second text is one or is blank, and it has the
pieces of the first and then those of the second. -/
theorem read_seam (first : read a = .ok x) (whole : Whole a.toList)
    (blank : allBlank w.toList = true) (apart : w ≠ "" ∨ Bracketed a.toList) :
    (∀ y, read b = .ok y → read (a ++ w ++ b) = .ok ⟨x.pieces ++ y.pieces, none⟩) ∧
    (allBlank b.toList = true → read (a ++ w ++ b) = .ok x) ∧
    (allBlank b.toList = false → ∀ e, read b = .error e →
      ∃ e', read (a ++ w ++ b) = .error e') ∧
    (Bracketed a.toList →
      ∃ front last, x.pieces = front ++ [last] ∧ ∀ text, last ≠ .word text) := by
  have together (z : Rule) := read_eq_ok_append (b := b) (z := z) first whole blank apart
  obtain ⟨reads, -, none⟩ := read_eq_ok.mp first
  refine ⟨fun y second => ?_, fun empty => ?_, fun filled e refused => ?_, reads.last_block⟩
  · exact (together _).mpr ⟨y.pieces, (read_eq_ok.mp second).1, rfl⟩
  · exact (together x).mpr ⟨[], reads_eq_nil.mpr ⟨rfl, empty⟩, by rw [List.append_nil, ← none]⟩
  · cases accepts : read (a ++ w ++ b) with
    | error e' => exact ⟨e', rfl⟩
    | ok z =>
      obtain ⟨behind, later, -⟩ := (together z).mp accepts
      have some : behind ≠ [] := by
        rintro rfl
        rw [(reads_eq_nil.mp later).2] at filled
        cases filled
      have second : read b = .ok ⟨behind, .none⟩ := read_eq_ok.mpr ⟨later, some, rfl⟩
      rw [second] at refused
      cases refused

/-- A word right behind a block is a piece of its own, and another bracket there is one too many. -/
theorem read_seam_greeting : ∃ x y : Rule,
    read "oh [good?often/80]" = .ok x ∧ read "morning ~[name]" = .ok y ∧
      Whole "oh [good?often/80]".toList ∧ Bracketed "oh [good?often/80]".toList ∧
      read ("oh [good?often/80]" ++ "" ++ "morning ~[name]") = .ok ⟨x.pieces ++ y.pieces, none⟩ ∧
      (∃ e, read "]" = .error e) ∧ ∃ e, read ("oh [good?often/80]" ++ "" ++ "]") = .error e := by
  let often : Modifiers := ⟨false, none, some "often", some 80⟩
  let x : Rule := ⟨[.word "oh", .group [.word "good"] none often], none⟩
  let y : Rule := ⟨[.word "morning", .reference .alias "name" {}], none⟩
  have first : read "oh [good?often/80]" = .ok x := by cbv
  have second : read "morning ~[name]" = .ok y := by cbv
  have refused : read "]" = .error (.malformed "]" .strayClosing) := by cbv
  have whole : Whole "oh [good?often/80".toList := (whole_iff _).mpr (by decide)
  have closed : Bracketed "oh [good?often/80]".toList :=
    ⟨"oh [good?often/80".toList, by decide, whole⟩
  have behind (b : String) := read_seam (a := "oh [good?often/80]") (w := "") (b := b) first
    closed.whole rfl (.inr closed)
  obtain ⟨accepts, -⟩ := behind "morning ~[name]"
  obtain ⟨-, -, refuses, -⟩ := behind "]"
  exact ⟨x, y, first, second, closed.whole, closed, accepts y second, ⟨_, refused⟩,
    refuses rfl _ refused⟩

end Rule

end Phrasebook
