import Phrasebook.Proofs.CountPlaces
import Phrasebook.Proofs.Joining

/-!
# Counts that are asked for

An intent's count stands behind its block, but it is looked for in the whole line: a bracket that is
escaped in the block, with a parenthesis directly behind it, is taken for the place of the count.

* `Declaration.Asks`: which count a line asks for, from its block and what follows it;
* `read_intent_eq_ok`: a line is accepted just when its block is, and it asks for something;
* `Template.addLines_holds`: what the lines of a template declare is in its store;
* `Template.counts_asked`: the count of an intent is the one behind its block, and a block may be
  given a count, just when the block does not hold such a bracket.
-/

namespace Phrasebook

open Text

namespace Declaration

variable {line before after block : List Char} {count : Option UInt64} {d : Declaration}

/-! ## What a line asks for -/

/-- The count that an intent's line asks for, from its block and what follows it. A number in
parentheses directly behind the block is meant, unless the block itself holds a bracket with a
parenthesis behind it: then the number is taken from there, and what follows the block may not
stand directly behind it. -/
inductive Asks (block after : List Char) : Option UInt64 → Prop
  | nothing (blank : allBlank after = true) : Asks block after none
  | behind {t bs : List Char} {n : UInt64} (plain : ¬ Opens block)
      (here : after = '(' :: (t ++ ')' :: bs)) (blank : allBlank bs = true)
      (numeral : Count.read (.ofList t) = .ok n) : Asks block after (some n)
  | within {x t y u : List Char} {n : UInt64}
      (opens : block = x ++ ']' :: '(' :: (t ++ ')' :: y)) (first : ¬ Opens (x ++ [']']))
      (numeral : Count.read (.ofList t) = .ok n)
      (only : ∀ p q, y ++ after = p ++ ']' :: '(' :: q → ')' ∉ q)
      (aside : trim after = '(' :: (u ++ [')'])) (plain : '(' ∉ u ∧ ')' ∉ u) :
      Asks block after (some n)

theorem parenthesized_iff {s : List Char} : s.head? = some '(' ∧ s.getLast? = some ')' ↔
    ∃ u, s = '(' :: (u ++ [')']) := by
  constructor
  · rintro ⟨front, last⟩
    obtain ⟨rest, rfl⟩ := List.head?_eq_some_iff.mp front
    rcases rest.eq_nil_or_concat' with rfl | ⟨u, e, rfl⟩
    · exact absurd last (by decide)
    · rw [← List.cons_append, List.getLast?_concat] at last
      cases last
      exact ⟨u, rfl⟩
  · rintro ⟨u, rfl⟩
    exact ⟨rfl, by rw [← List.cons_append, List.getLast?_concat]⟩

/-- A number is asked for in parentheses, and there are none inside of them. -/
theorem readCount_parenthesized {line : String} {u : List Char} :
    readCount .intent line ('(' :: (u ++ [')'])) = .ok count ↔
      ('(' ∉ u ∧ ')' ∉ u) ∧ ∃ n, Count.asked line = .ok (some n) ∧ count = some n := by
  obtain ⟨front, last⟩ := parenthesized_iff.mpr ⟨u, rfl⟩
  have inner : ('(' :: (u ++ [')'])).tail.dropLast = u := by simp
  rw [readCount, if_neg (by simp), front, last, inner, if_pos (by decide), bind_eq_ok]
  simp only [List.any_eq_true, Bool.or_eq_true, decide_eq_true_eq]
  constructor
  · rintro ⟨asked, asks, h⟩
    split at h
    · cases h
    · next plain =>
      split at h
      · next n =>
        cases h
        refine ⟨⟨fun there => ?_, fun there => ?_⟩, n, asks, rfl⟩
        · exact plain ⟨_, there, .inl rfl⟩
        · exact plain ⟨_, there, .inr rfl⟩
      · cases h
  · rintro ⟨plain, n, asks, rfl⟩
    refine ⟨some n, asks, if_neg ?_⟩
    rintro ⟨c, there, rfl | rfl⟩
    · exact plain.1 there
    · exact plain.2 there

theorem readCount_eq_ok {line : String} : readCount .intent line after = .ok count ↔
    (after = [] ∧ count = none) ∨ ∃ u n, after = '(' :: (u ++ [')']) ∧ ('(' ∉ u ∧ ')' ∉ u) ∧
      Count.asked line = .ok (some n) ∧ count = some n := by
  by_cases ends : after = []
  · subst ends
    constructor
    · intro h
      cases h
      exact .inl ⟨rfl, rfl⟩
    · rintro (⟨-, rfl⟩ | ⟨u, n, same, -⟩)
      · rfl
      · cases same
  by_cases row : ∃ u, after = '(' :: (u ++ [')'])
  · obtain ⟨u, rfl⟩ := row
    rw [readCount_parenthesized]
    constructor
    · rintro ⟨plain, n, asked⟩
      exact .inr ⟨u, n, rfl, plain, asked⟩
    · rintro (⟨same, -⟩ | ⟨v, n, same, plain, asked⟩)
      · cases same
      · obtain rfl : u = v := by simpa using same
        exact ⟨plain, n, asked⟩
  · rw [readCount, if_neg (by simpa using ends), if_neg]
    · simp only [reduceCtorEq, false_iff, not_or, not_and, not_exists]
      exact ⟨fun same => absurd same ends, fun u n same => absurd ⟨u, same⟩ row⟩
    · intro h
      simp only [Bool.and_eq_true, decide_eq_true_eq, true_and] at h
      exact row (parenthesized_iff.mp h)

/-- A number in the block is the one that is asked for. -/
theorem asks_within {n : UInt64} {t u : List Char} (opens : Opens (before ++ [']']))
    (found : Count.written none (before ++ [']'] ++ after) = [t])
    (numeral : Count.read (.ofList t) = .ok n) (aside : trim after = '(' :: (u ++ [')']))
    (plain : '(' ∉ u ∧ ')' ∉ u) : Asks (before ++ [']']) after (some n) := by
  obtain ⟨x, y, same, first⟩ := exists_opens opens
  rw [same, List.append_assoc, List.cons_append, List.cons_append, Count.written_opened first]
    at found
  have last : before ++ [']'] = x ++ [']'] ++ '(' :: y := by rw [same, ← List.append_cons]
  obtain ⟨front, rfl⟩ := exists_concat last (by decide)
  by_cases closes : ')' ∈ front ++ [']']
  · obtain ⟨t', z, parted, free⟩ := List.eq_append_cons_of_mem closes
    rw [parted] at same found
    rw [List.append_assoc, List.cons_append, Count.written_some free] at found
    obtain ⟨rfl, only⟩ := List.cons.inj found
    exact .within same first numeral (Count.written_eq_nil.mp only) aside plain
  · -- the number would have to reach over the end of the block
    have closes' : ')' ∈ after := mem_trim (by simp [aside])
    obtain ⟨a, b, rfl, free⟩ := List.eq_append_cons_of_mem closes'
    have free' : ')' ∉ front ++ [']'] ++ a := by simp_all
    rw [← List.append_assoc, Count.written_some free'] at found
    obtain ⟨rfl, -⟩ := List.cons.inj found
    exact absurd (by simp) (Count.plain_of_read numeral).1

/-- A number is looked for in the line just as `Asks` says. -/
theorem readCount_iff_asks : readCount .intent (.ofList (before ++ [']'] ++ after)) (trim after) =
    .ok count ↔ Asks (before ++ [']']) after count := by
  rw [readCount_eq_ok]
  constructor
  · rintro (⟨blank, rfl⟩ | ⟨u, n, aside, plain, asks, rfl⟩)
    · exact .nothing (trim_eq_nil.mp blank)
    · obtain ⟨t, found, numeral⟩ := Count.asked_eq_ok.mp asks
      by_cases opens : Opens (before ++ [']'])
      · exact asks_within opens found numeral aside plain
      · obtain ⟨bs, bs', blank, blank', whole⟩ := exists_trim after
        rw [aside] at whole
        subst whole
        cases bs with
        | cons c bs =>
          have visible : '(' ∉ bs' := fun there =>
            absurd (List.all_eq_true.mp blank' _ there) (by decide)
          have free : '(' ∉ u ++ [')'] ++ bs' := by simp [plain.1, visible]
          have apart := Count.written_apart opens blank free
          rw [← List.cons_append, found] at apart
          cases apart
        | nil =>
          have here : '(' :: (u ++ [')']) ++ bs' = '(' :: (u ++ ')' :: bs') := by simp
          rw [List.nil_append, here, Count.written_behind opens plain.2 blank'] at found
          cases found
          exact .behind opens here blank' numeral
  · rintro (blank | ⟨plain, rfl, blank, numeral⟩ | ⟨opens, first, numeral, only, aside, plain⟩)
    · exact .inl ⟨trim_eq_nil.mpr blank, rfl⟩
    · next t bs n =>
      obtain ⟨-, free⟩ := Count.plain_of_read numeral
      have aside : trim ('(' :: (t ++ ')' :: bs)) = '(' :: (t ++ [')']) := by
        rw [List.append_cons, ← List.cons_append, trim_append_blanks blank, trim_parenthesized]
      refine .inr ⟨t, n, aside, free, Count.asked_eq_ok.mpr ⟨t, ?_, numeral⟩, rfl⟩
      exact Count.written_behind plain free.2 blank
    · next x t y u n =>
      refine .inr ⟨u, n, aside, plain, Count.asked_eq_ok.mpr ⟨t, ?_, numeral⟩, rfl⟩
      rw [opens, List.append_assoc, List.cons_append, List.cons_append,
        Count.written_opened first, List.append_assoc, List.cons_append,
        Count.written_some (Count.plain_of_read numeral).2.2, Count.written_eq_nil.mpr only]
      rfl

/-- What follows a block that holds such a bracket may not stand directly behind it. -/
theorem Asks.apart (h : Asks (before ++ [']']) after count) (opens : Opens (before ++ [']'])) :
    after.head? ≠ some '(' := by
  intro front
  obtain ⟨rest, rfl⟩ := List.head?_eq_some_iff.mp front
  cases h with
  | nothing blank => exact absurd (List.all_eq_true.mp blank _ List.mem_cons_self) (by decide)
  | behind plain => exact plain opens
  | @within x t y u n same _ _ only aside _ =>
    have closes : ')' ∈ rest := by
      have there : ')' ∈ '(' :: rest := mem_trim (by simp [aside])
      simpa using there
    have last : before ++ [']'] = x ++ ']' :: '(' :: t ++ ')' :: y := by simpa using same
    obtain ⟨z, rfl⟩ := exists_concat last (by decide)
    exact only z rest (List.append_cons z ']' ('(' :: rest)).symm closes

theorem asks_nil : Asks block [] count ↔ count = none := by
  constructor
  · intro h
    cases h with
    | nothing => rfl
    | behind _ here => cases here
    | within _ _ _ _ aside => cases aside
  · rintro rfl
    exact .nothing rfl

/-- A number directly behind the block is asked for just when the block holds no such bracket. -/
theorem asks_digitsOf {n : UInt64} (positive : 1 ≤ n) :
    Asks (before ++ [']']) ('(' :: (digitsOf n ++ [')'])) count ↔
      ¬ Opens (before ++ [']']) ∧ count = some n := by
  constructor
  · intro h
    have plain : ¬ Opens (before ++ [']']) := fun opens => h.apart opens rfl
    refine ⟨plain, ?_⟩
    cases h with
    | nothing blank => exact absurd (List.all_eq_true.mp blank _ List.mem_cons_self) (by decide)
    | behind _ here _ numeral =>
      have free : ')' ∉ digitsOf n := fun there => ne_of_mem_digitsOf there (by decide) rfl
      obtain ⟨rfl, -⟩ :=
        (List.append_cons_inj_of_notMem free List.not_mem_nil).mp (List.cons.inj here).2
      rw [Count.read_digitsOf positive] at numeral
      exact congrArg some (Except.ok.inj numeral).symm
    | within same =>
      rw [same] at plain
      exact absurd (opens_append _ _) plain
  · rintro ⟨plain, rfl⟩
    exact .behind plain rfl rfl (Count.read_digitsOf positive)

/-- A line is accepted just when its block is, and it asks for something. -/
theorem read_intent_eq_ok (cut : splitAtMark? ']' line = some (before, after))
    (intent : line.head? = some '%') : read line = .ok d ↔
      ∃ b count, Block.read (before ++ [']']) = .ok b ∧ b.modifiers.group = none ∧
        Asks (before ++ [']']) after count ∧
        d = ⟨.intent, b.name, b.modifiers.casing, ⟨b.modifiers.variation, count, []⟩⟩ := by
  have whole : line = before ++ [']'] ++ after := by
    rw [eq_of_splitAtMark? cut, List.append_cons]
  have kind {b : Block} (reads : Block.read (before ++ [']']) = .ok b) : b.kind = some .intent := by
    obtain ⟨opened, inner, same, _, inside⟩ := Block.read_eq_ok_iff.mp reads
    rw [Block.kind_of_ofInside inside]
    rw [whole, same] at intent
    cases opened with
    | none => cases intent
    | some k =>
      cases k with
      | intent => rfl
      | _ => cases intent
  rw [read, cut]
  simp only [bind_eq_ok]
  constructor
  · rintro ⟨b, reads, h⟩
    rw [kind reads] at h
    dsimp only at h
    split at h
    · cases h
    · next groupless =>
      obtain ⟨count, counts, h⟩ := bind_eq_ok.mp h
      cases h
      rw [whole] at counts
      exact ⟨b, count, reads, by simpa using groupless, readCount_iff_asks.mp counts, rfl⟩
  · rintro ⟨b, count, reads, groupless, asks, rfl⟩
    refine ⟨b, reads, ?_⟩
    rw [← readCount_iff_asks, ← whole] at asks
    simp [kind reads, groupless, asks, bind, Except.bind, pure, Except.pure]

/-- A block that is accepted by itself, with anything behind it. -/
theorem read_followed (cut : splitAtMark? ']' block = some (before, []))
    (intent : block.head? = some '%') (alone : read block = .ok d) {grown : Declaration} :
    read (block ++ after) = .ok grown ↔
      ∃ count, Asks block after count ∧
        grown = { d with variation := { d.variation with count := count } } := by
  have whole : before ++ [']'] = block := (eq_of_splitAtMark? cut).symm
  have cut' : splitAtMark? ']' (block ++ after) = some (before, after) :=
    splitAtMark_append_some cut after
  have intent' : (block ++ after).head? = some '%' := by rw [List.head?_append, intent]; rfl
  obtain ⟨b, count, reads, groupless, -, rfl⟩ := (read_intent_eq_ok cut intent).mp alone
  rw [read_intent_eq_ok cut' intent', whole]
  rw [whole] at reads
  simp [reads, groupless]

/-- A line that is an intent's block, with a number directly behind it. -/
theorem read_prepared_digitsOf (cut : splitAtMark? ']' block = some (before, []))
    (intent : block.head? = some '%') (alone : read (prepare block) = .ok d) {n : UInt64}
    (positive : 1 ≤ n) : d.kind = .intent ∧ d.variation.count = none ∧ ∀ grown,
      read (prepare (block ++ '(' :: (digitsOf n ++ [')']))) = .ok grown ↔
        ¬ Opens block ∧ grown = { d with variation := { d.variation with count := some n } } := by
  have uncommented : beforeComment? block = none := by
    refine uncommented_of_cut cut fun hidden => ?_
    rw [read, hidden] at alone
    cases alone
  have cut' : splitAtMark? ']' (prepare block) = some (plainSemicolons before, []) := by
    rw [prepare_of_uncommented uncommented, splitAtMark_plainSemicolons, cut]
    rfl
  have whole : prepare block = plainSemicolons before ++ [']'] := eq_of_splitAtMark? cut'
  have intent' : (prepare block).head? = some '%' := by
    obtain ⟨inner, rfl⟩ := List.head?_eq_some_iff.mp intent
    obtain ⟨rest, same⟩ : ∃ rest, prepare ('%' :: inner) = '%' :: rest :=
      prepare_cons (by decide) (by decide) (by decide) inner
    rw [same, List.head?_cons]
  have opens : Opens (prepare block) ↔ Opens block := by
    rw [prepare_of_uncommented uncommented, opens_plainSemicolons]
  have plain : ';' ∉ '(' :: (digitsOf n ++ [')']) := by
    have free : ';' ∉ digitsOf n := fun there => ne_of_mem_digitsOf there (by decide) rfl
    simp [free]
  obtain ⟨b, count, -, -, asks, rfl⟩ := (read_intent_eq_ok cut' intent').mp alone
  refine ⟨rfl, asks_nil.mp asks, fun grown => ?_⟩
  rw [prepare_append_plain uncommented plain, read_followed cut' intent' alone]
  simp only [whole] at opens ⊢
  simp only [asks_digitsOf positive, opens, and_assoc, exists_and_left, exists_eq_left]

end Declaration

/-! ## What is declared is there -/

namespace Store

variable {s grown : Store} {d other : Declaration} {made : List Declaration}

/-- The store has the variation that is declared, with its count. -/
def Holds (s : Store) (d : Declaration) : Prop :=
  ∃ kept v, s.find? d.kind d.name = some kept ∧ v ∈ kept.variations ∧
    v.name = d.variation.name ∧ v.count = d.variation.count

theorem holds_declare (h : s.declare d = .ok grown) : grown.Holds d := by
  obtain ⟨-, rfl⟩ := declare_eq_ok.mp h
  refine ⟨_, d.variation, by rw [find?_put, if_pos ⟨rfl, rfl⟩], ?_, rfl, rfl⟩
  exact List.mem_append_right _ List.mem_cons_self

theorem Holds.declare (holds : s.Holds d) (h : s.declare other = .ok grown) : grown.Holds d := by
  obtain ⟨kept, v, found, there, named, counted⟩ := holds
  obtain ⟨-, rfl⟩ := declare_eq_ok.mp h
  by_cases here : d.kind = other.kind ∧ d.name = other.name
  · refine ⟨_, v, by rw [find?_put, if_pos here], ?_, named, counted⟩
    have known : s.grows other = kept := by rw [grows, ← here.1, ← here.2, found, Option.getD_some]
    exact List.mem_append_left _ (by rwa [known])
  · exact ⟨kept, v, by rwa [find?_put, if_neg here], there, named, counted⟩

theorem Holds.foldlM (holds : s.Holds d) (h : made.foldlM Store.declare s = .ok grown) :
    grown.Holds d := by
  induction made generalizing s with
  | nil =>
    cases h
    exact holds
  | cons first made ih =>
    rw [List.foldlM_cons] at h
    obtain ⟨next, declared, h⟩ := bind_eq_ok.mp h
    exact ih (holds.declare declared) h

end Store

namespace Template

variable {fs : Files} {chain : List Place} {origin base : String} {n : Nat}
  {raws : List (List Char)} {pending : Option Pending} {store grown : Store}

theorem settle_holds {p : Pending} (h : Pending.settle origin store (some p) = .ok grown) :
    grown.Holds p.declaration :=
  Store.holds_declare (mapError_eq_ok.mp h)

theorem addFile_keeps {path : String} {d : Declaration} (holds : store.Holds d)
    (h : addFile fs chain path store = .ok grown) : grown.Holds d := by
  obtain ⟨made, amounts⟩ := addFile_amounts h
  exact holds.foldlM ((amounts store grown).mp h)

theorem addLines_keeps {d : Declaration} (holds : store.Holds d)
    (h : addLines fs chain origin base n raws pending store = .ok grown) : grown.Holds d := by
  obtain ⟨made, amounts⟩ := addLines_amounts h
  exact holds.foldlM ((amounts n pending rfl store grown).mp h)

/-- Whatever lines declare is in the store that they make, what was pending before them too. -/
theorem addLines_holds (h : addLines fs chain origin base n raws pending store = .ok grown) :
    (∀ p, pending = some p → grown.Holds p.declaration) ∧
      ∀ text, .declaration text ∈ TemplateLine.seen raws →
        ∃ d, Declaration.read text = .ok d ∧ grown.Holds d := by
  induction raws generalizing n pending store with
  | nil =>
    rw [addLines] at h
    refine ⟨?_, nofun⟩
    rintro p rfl
    exact settle_holds h
  | cons raw rest ih =>
    cases line : TemplateLine.read raw with
    | blank =>
      rw [addLines_blank line] at h
      rw [TemplateLine.seen_cons, TemplateLine.seen_blank line]
      exact ih h
    | rule text =>
      obtain ⟨p, r, rfl, -, h⟩ := (addLines_rule line).mp h
      obtain ⟨here, later⟩ := ih h
      rw [TemplateLine.seen_visible line nofun]
      refine ⟨?_, fun text there => later text (by simpa using there)⟩
      rintro q ⟨⟩
      -- a rule changes neither the name nor the count of what is pending
      exact here (p.addRule r) rfl
    | inclusion target =>
      obtain ⟨settled, included, settles, -, adds, others⟩ := (addLines_inclusion line).mp h
      rw [TemplateLine.seen_visible line nofun]
      refine ⟨?_, fun text there => (ih others).2 text (by simpa using there)⟩
      rintro p rfl
      exact addLines_keeps (addFile_keeps (settle_holds settles) adds) others
    | declaration text =>
      obtain ⟨settled, d, settles, reads, others⟩ := (addLines_declaration line).mp h
      obtain ⟨here, later⟩ := ih others
      rw [TemplateLine.seen_visible line nofun]
      constructor
      · rintro p rfl
        exact addLines_keeps (settle_holds settles) others
      · intro text' there
        rcases List.mem_cons.mp there with same | there
        · cases same
          exact ⟨d, reads, here _ rfl⟩
        · exact later text' there
    | unknown text => exact absurd h (addLines_unknown line)

theorem count_of_declared {text : String} {line before after : List Char}
    (reads : read fs text = .ok grown)
    (declared : .declaration line ∈ TemplateLine.seen (lines text.toList))
    (intent : line.head? = some '%') (cut : splitAtMark? ']' line = some (before, after)) :
    ∃ d, Declaration.read line = .ok d ∧ d.kind = .intent ∧ grown.Holds d ∧
      Declaration.Asks (before ++ [']']) after d.variation.count := by
  obtain ⟨d, accepted, holds⟩ := (addLines_holds reads).2 line declared
  obtain ⟨b, count, -, -, asks, rfl⟩ := (Declaration.read_intent_eq_ok cut intent).mp accepted
  exact ⟨_, accepted, rfl, holds, asks⟩

/-! ## Intents of one rule -/

/-- The store with one intent, which has one rule. -/
def oneIntent (name : String) (casing : Bool) (variation : Option String) (count : Option UInt64)
    (r : Rule) : Store :=
  (∅ : Store).put .intent name ⟨name, .intent, casing, [⟨variation, count, [r]⟩]⟩

/-- The rows of a template with a head and one rule. -/
theorem seen_headed {head line row rule : List Char} {last : Char} (feedless : '\n' ∉ head)
    (ends : head.getLast? = some last) (visible : isBlank last = false)
    (declares : TemplateLine.read head = .declaration line) (feedless' : '\n' ∉ row)
    (ruled : TemplateLine.read row = .rule rule) :
    TemplateLine.seen (lines (head ++ '\n' :: row)) = [.declaration line, .rule rule] := by
  have filled : row ≠ [] := by
    rintro rfl
    cases ruled
  rw [lines_row feedless, lines_end feedless' filled, TemplateLine.seen_cons,
    TemplateLine.seen_withoutReturn ⟨feedless, .inr ⟨last, ends, visible⟩⟩,
    TemplateLine.seen_visible declares nofun, TemplateLine.seen_visible ruled nofun]
  rfl

theorem read_line_intent {s : List Char} (front : s.head? = some '%') :
    TemplateLine.read s = .declaration (prepare s) := by
  obtain ⟨inner, rfl⟩ := List.head?_eq_some_iff.mp front
  exact TemplateLine.read_head .intent inner

section
variable {block before row rule : List Char}

/-- The rows of an intent of one rule, from its block alone. -/
theorem seen_block (intent : block.head? = some '%')
    (cut : splitAtMark? ']' block = some (before, [])) (feedless : '\n' ∉ block)
    (feedless' : '\n' ∉ row) (ruled : TemplateLine.read row = .rule rule) :
    TemplateLine.seen (lines (block ++ '\n' :: row)) =
      [.declaration (prepare block), .rule rule] := by
  have ends : block.getLast? = some ']' := by rw [eq_of_splitAtMark? cut, List.getLast?_concat]
  exact seen_headed feedless ends (by decide) (read_line_intent intent) feedless' ruled

/-- The rows of an intent of one rule, from its block with a number behind it. -/
theorem seen_counted (n : UInt64) (intent : block.head? = some '%') (feedless : '\n' ∉ block)
    (feedless' : '\n' ∉ row) (ruled : TemplateLine.read row = .rule rule) :
    TemplateLine.seen (lines (block ++ '(' :: (digitsOf n ++ [')']) ++ '\n' :: row)) =
      [.declaration (prepare (block ++ '(' :: (digitsOf n ++ [')']))), .rule rule] := by
  have free : '\n' ∉ digitsOf n := fun there => ne_of_mem_digitsOf there (by decide) rfl
  have intent' : (block ++ '(' :: (digitsOf n ++ [')'])).head? = some '%' := by
    rw [List.head?_append, intent, Option.some_or]
  have feedless'' : '\n' ∉ block ++ '(' :: (digitsOf n ++ [')']) := by simp [feedless, free]
  have ends : (block ++ '(' :: (digitsOf n ++ [')'])).getLast? = some ')' := by
    rw [List.getLast?_append_of_ne_nil _ (List.cons_ne_nil _ _), Variation.getLast?_count]
  exact seen_headed feedless'' ends (by decide) (read_line_intent intent') feedless' ruled

/-- An intent of one rule, from its block alone and from its block with a number behind it. -/
theorem read_counted {n : UInt64} (intent : block.head? = some '%')
    (cut : splitAtMark? ']' block = some (before, [])) (feedless : '\n' ∉ block)
    (feedless' : '\n' ∉ row) (ruled : TemplateLine.read row = .rule rule)
    (alone : read fs (.ofList (block ++ '\n' :: row)) = .ok store) (positive : 1 ≤ n) :
    ∃ name casing variation r, store = oneIntent name casing variation none r ∧
      ∀ grown, read fs (.ofList (block ++ '(' :: (digitsOf n ++ [')']) ++ '\n' :: row)) =
        .ok grown ↔ ¬ Opens block ∧ grown = oneIntent name casing variation (some n) r := by
  have rows := seen_block intent cut feedless feedless' ruled
  have rows' := seen_counted n intent feedless feedless' ruled
  rw [← String.toList_ofList (l := block ++ '\n' :: row)] at rows
  rw [← String.toList_ofList (l := _ ++ '\n' :: row)] at rows'
  obtain ⟨d, r, reads, ruled', accepted, rfl⟩ := (read_single rows).mp alone
  obtain ⟨kind, uncounted, counted⟩ :=
    Declaration.read_prepared_digitsOf cut intent reads positive
  obtain ⟨k, name, casing, v, count, rules⟩ := d
  obtain rfl : k = .intent := kind
  obtain rfl : count = none := uncounted
  refine ⟨name, casing, v, r, rfl, fun grown => ?_⟩
  rw [read_single rows']
  constructor
  · rintro ⟨d, r', reads', ruled'', -, rfl⟩
    obtain ⟨plain, rfl⟩ := (counted d).mp reads'
    obtain rfl : r = r' := Except.ok.inj (ruled'.symm.trans ruled'')
    exact ⟨plain, rfl⟩
  · rintro ⟨plain, rfl⟩
    refine ⟨_, r, (counted _).mpr ⟨plain, rfl⟩, ruled', ?_, rfl⟩
    obtain ⟨free, -, rules, absent⟩ := Definition.refusal?_eq_none.mp accepted
    exact Definition.refusal?_eq_none.mpr ⟨free, fun _ _ => rfl, rules, absent⟩

end

/-- **The count of an intent** is the number in parentheses that follows its block, and nothing in
the block matters to that, but for one thing: where the block holds a closing bracket, escaped,
with an opening parenthesis directly behind it, a number that stands there is taken instead, and no
number may stand directly behind the block. -/
theorem counts_asked (fs : Files) :
    (∀ text store line before after, read fs text = .ok store →
      .declaration line ∈ TemplateLine.seen (lines text.toList) → line.head? = some '%' →
      splitAtMark? ']' line = some (before, after) →
      ∃ d, Declaration.read line = .ok d ∧ d.kind = .intent ∧ store.Holds d ∧
        Declaration.Asks (before ++ [']']) after d.variation.count) ∧
    ∀ block before row rule store n, block.head? = some '%' →
      splitAtMark? ']' block = some (before, []) → '\n' ∉ block → '\n' ∉ row →
      TemplateLine.read row = .rule rule →
      read fs (.ofList (block ++ '\n' :: row)) = .ok store → 1 ≤ n →
      ∃ name casing variation r, store = oneIntent name casing variation none r ∧
        ∀ grown, read fs (.ofList (block ++ '(' :: (digitsOf n ++ [')']) ++ '\n' :: row)) =
          .ok grown ↔ ¬ Opens block ∧ grown = oneIntent name casing variation (some n) r :=
  ⟨fun _ _ _ _ _ reads declared intent cut => count_of_declared reads declared intent cut,
    fun _ _ _ _ _ _ intent cut feedless feedless' ruled alone positive =>
      read_counted intent cut feedless feedless' ruled alone positive⟩

theorem counts_asked_greeting :
    (∃ store d, read {} "%[greet](5)\n  hello" = .ok store ∧
      Declaration.read "%[greet](5)".toList = .ok d ∧ d.kind = .intent ∧ store.Holds d ∧
      Declaration.Asks "%[greet]".toList "(5)".toList d.variation.count) ∧
    ∃ name casing variation r,
      oneIntent "greet" false none none ⟨[.word "hello"], none⟩ =
        oneIntent name casing variation none r ∧
      ∀ grown, read {} (.ofList ("%[greet]".toList ++ '(' :: (digitsOf 5 ++ [')']) ++
        '\n' :: "  hello".toList)) = .ok grown ↔
          ¬ Opens "%[greet]".toList ∧ grown = oneIntent name casing variation (some 5) r := by
  have asked : read {} "%[greet](5)\n  hello" =
      .ok (oneIntent "greet" false none (some 5) ⟨[.word "hello"], none⟩) := by cbv
  have alone : read {} (.ofList ("%[greet]".toList ++ '\n' :: "  hello".toList)) =
      .ok (oneIntent "greet" false none none ⟨[.word "hello"], none⟩) := by cbv
  have cut : splitAtMark? ']' "%[greet](5)".toList = some ("%[greet".toList, "(5)".toList) := rfl
  have cut' : splitAtMark? ']' "%[greet]".toList = some ("%[greet".toList, []) := rfl
  have ruled : TemplateLine.read "  hello".toList = .rule "hello".toList := by cbv
  have rows : TemplateLine.seen (lines "%[greet](5)\n  hello".toList) =
      [.declaration "%[greet](5)".toList, .rule "hello".toList] := by cbv
  obtain ⟨behind, counted⟩ := counts_asked {}
  obtain ⟨d, held⟩ := behind _ _ _ _ _ asked (rows ▸ List.mem_cons_self) rfl cut
  exact ⟨⟨_, d, asked, held⟩,
    counted _ _ _ _ _ 5 rfl cut' (by decide) (by decide) ruled alone (by decide)⟩

/-- The count is not the one behind the block, and a block that is accepted may be given none. -/
theorem count_in_block :
    read {} "%[a\\](7)] (5)\n  x\n" =
      .ok (oneIntent "a](7)" false none (some 7) ⟨[.word "x"], none⟩) ∧
    read {} "%[a\\](x)]\n  x\n" =
      .ok (oneIntent "a](x)" false none none ⟨[.word "x"], none⟩) ∧
    read {} "%[a\\](x)](5)\n  x\n" =
      .error (.atLine "<inline>" 1 (.invalidCount (.notPositive "x"))) := by
  refine ⟨?_, ?_, ?_⟩ <;> cbv

end Template
end Phrasebook
