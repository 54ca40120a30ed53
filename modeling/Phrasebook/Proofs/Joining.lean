import Phrasebook.Proofs.Apart

/-!
# Texts one after the other

A text that ends with a line feed can be followed by another one: what is read of both is what is
read of each, put together.

* `Text.lines_append`: the lines of both are the lines of each;
* `addLines_settled`, `addLines_append`: lines that begin with no rule can be read where nothing is
  pending, once what was pending before is declared;
* `Amounts`: which declarations lines come to does not depend on the store that they are added to;
* `read_append_merges`: texts without a definition in common are read, in either order, as their
  stores merged.
-/

namespace Phrasebook

namespace Text

variable {s t before : List Char}

/-- Nothing of the last line is missing. -/
def Ended (s : List Char) : Prop := s = [] ∨ s.getLast? = some '\n'

instance (s : List Char) : Decidable (Ended s) :=
  inferInstanceAs (Decidable (s = [] ∨ s.getLast? = some '\n'))

theorem go_append (s t : List Char) :
    lines.go before (s ++ '\n' :: t) = lines.go before (s ++ ['\n']) ++ lines t := by
  induction s generalizing before with
  | nil => simp [lines.go, lines]
  | cons c s ih =>
    rw [List.cons_append, List.cons_append, lines.go, lines.go]
    split
    · rw [ih, List.cons_append]
    · exact ih

theorem lines_append (ended : Ended s) (t : List Char) : lines (s ++ t) = lines s ++ lines t := by
  rcases ended with rfl | feed
  · rfl
  · obtain ⟨front, rfl⟩ := List.getLast?_eq_some_iff.mp feed
    rw [List.append_assoc, List.singleton_append]
    exact go_append front t

end Text

theorem Files.textAt_utf8 {fs : Files} {place : Place} {text : String} {t : Nat}
    (there : fs.get? place = some (.file (Text.utf8 text) t)) (may : fs.mayRead place = true) :
    fs.textAt place = .ok text := by
  refine bind_eq_ok.mpr ⟨Text.utf8 text, bytesAt_eq_ok.mpr ⟨may, t, there⟩, ?_⟩
  rw [Text.ofUtf8?_utf8]

namespace Template

open TemplateLine

variable {fs : Files} {chain : List Place} {origin base : String} {n : Nat}
  {raws others : List (List Char)} {pending : Option Pending} {store grown : Store}

/-! ## Lines one after the other -/

/-- No rule comes before the first declaration or include. -/
def Fresh (raws : List (List Char)) : Prop := ∀ text, (seen raws).head? ≠ some (.rule text)

theorem Fresh.of_blank {raw : List Char} (line : TemplateLine.read raw = .blank) :
    Fresh (raw :: raws) ↔ Fresh raws := by
  rw [Fresh, seen_cons, seen_blank line, List.nil_append, Fresh]

/-- Where nothing is pending, a rule would belong to nothing. -/
theorem fresh_of_read (h : addLines fs chain origin base n raws none store = .ok grown) :
    Fresh raws := by
  induction raws generalizing n with
  | nil => exact nofun
  | cons raw rest ih =>
    cases line : TemplateLine.read raw with
    | blank =>
      rw [addLines_blank line] at h
      exact (Fresh.of_blank line).mpr (ih h)
    | rule text =>
      obtain ⟨p, r, none, -⟩ := (addLines_rule line).mp h
      cases none
    | inclusion target | declaration text | unknown text =>
      intro text'
      rw [seen_visible line nofun, List.head?_cons]
      nofun

theorem settle_none (origin : String) (store : Store) :
    Pending.settle origin store none = .ok store := rfl

theorem addLines_settled (fresh : Fresh raws) :
    addLines fs chain origin base n raws pending store =
      Pending.settle origin store pending >>= addLines fs chain origin base n raws none := by
  induction raws generalizing n with
  | nil =>
    rw [addLines]
    cases Pending.settle origin store pending with
    | error e => rfl
    | ok settled =>
      change _ = addLines fs chain origin base n [] none settled
      rw [addLines, settle_none]
  | cons raw rest ih =>
    cases line : TemplateLine.read raw with
    | blank =>
      rw [addLines_blank line, ih ((Fresh.of_blank line).mp fresh)]
      exact bind_congr fun settled => (addLines_blank line).symm
    | rule text =>
      rw [Fresh, seen_visible line nofun] at fresh
      exact absurd rfl (fresh text)
    | inclusion target | declaration text | unknown text =>
      rw [addLines, line]
      cases Pending.settle origin store pending with
      | error e => rfl
      | ok settled =>
        change _ = addLines fs chain origin base n (raw :: rest) none settled
        rw [addLines, line, settle_none]

theorem addLines_append (fresh : Fresh others) :
    addLines fs chain origin base n (raws ++ others) pending store =
      addLines fs chain origin base n raws pending store >>=
        addLines fs chain origin base (n + raws.length) others none := by
  induction raws generalizing n pending store with
  | nil =>
    rw [List.nil_append, addLines_settled fresh, addLines]
    rfl
  | cons raw rest ih =>
    have number : n + (raw :: rest).length = n + 1 + rest.length := by
      rw [List.length_cons]
      omega
    rw [List.cons_append, addLines, addLines, number]
    cases TemplateLine.read raw with
    | blank => exact ih
    | rule text =>
      cases pending with
      | none => rfl
      | some p =>
        dsimp only
        cases Rule.readFor p.declaration.kind (.ofList text) with
        | error e => rfl
        | ok r => exact ih
    | inclusion target =>
      dsimp only
      cases Pending.settle origin store pending with
      | error e => rfl
      | ok settled =>
        dsimp only
        split
        · rfl
        · cases addFile fs chain (Path.join base (.ofList target)) settled with
          | error e => rfl
          | ok included => exact ih
    | declaration text =>
      dsimp only
      cases Pending.settle origin store pending with
      | error e => rfl
      | ok settled =>
        dsimp only
        cases Declaration.read text with
        | error e => rfl
        | ok d => exact ih
    | unknown text =>
      dsimp only
      cases Pending.settle origin store pending <;> rfl

/-! ## The declarations that lines come to -/

/-- Whatever the store, adding to it is declaring these. -/
def Amounts (add : Store → Outcome Store) (made : List Declaration) : Prop :=
  ∀ store grown, add store = .ok grown ↔ made.foldlM Store.declare store = .ok grown

theorem addFile_opened {path text : String} {place : Place} (located : fs.locate path = .ok place)
    (absent : place ∉ chain) (reads : fs.textAt place = .ok text) :
    addFile fs chain path store = addLines fs (place :: chain) path (Place.written place.tail) 1
      (Text.lines text.toList) none store := by
  rw [addFile]
  split
  · simp_all
  · next place' located' =>
    obtain rfl : place = place' := Except.ok.inj (located.symm.trans located')
    rw [dif_neg absent]
    split
    · simp_all
    · next text' reads' =>
      obtain rfl : text = text' := Except.ok.inj (reads.symm.trans reads')
      rfl

theorem addFile_eq_ok {path : String} : addFile fs chain path store = .ok grown ↔
    ∃ place text, fs.locate path = .ok place ∧ place ∉ chain ∧ fs.textAt place = .ok text ∧
      addLines fs (place :: chain) path (Place.written place.tail) 1 (Text.lines text.toList) none
        store = .ok grown := by
  rw [addFile]
  split
  · next e unreachable => simp [unreachable]
  · next place located =>
    split
    · next open' => simp [located, open']
    · next absent =>
      split
      · next e unreadable => simp [located, unreadable]
      · next text reads => simp [located, absent, reads]

mutual

theorem addFile_amounts {fs : Files} {chain : List Place} {path : String} {store grown : Store}
    (h : addFile fs chain path store = .ok grown) :
    ∃ made, Amounts (addFile fs chain path) made := by
  obtain ⟨place, text, located, absent, reads, h⟩ := addFile_eq_ok.mp h
  obtain ⟨made, amounts⟩ := addLines_amounts h
  refine ⟨made, fun store grown => ?_⟩
  rw [← amounts 1 none rfl store grown, addFile_eq_ok]
  simp [located, absent, reads]
termination_by (unvisited (places fs) chain, 0)
decreasing_by
  exact Prod.Lex.left _ _ (unvisited_cons_lt (mem_places_of_textAt ‹_›) ‹_›)

theorem addLines_amounts {fs : Files} {chain : List Place} {origin base : String} {n : Nat}
    {raws : List (List Char)} {pending : Option Pending} {store grown : Store}
    (h : addLines fs chain origin base n raws pending store = .ok grown) :
    ∃ made, ∀ m (pending' : Option Pending),
      pending'.map (·.declaration) = pending.map (·.declaration) →
        Amounts (addLines fs chain origin base m raws pending') made := by
  match raws, h with
  | [], _ =>
    refine ⟨(pending.map (·.declaration)).toList, fun m pending' same store grown => ?_⟩
    rw [addLines, settle_eq_ok, same]
  | raw :: rest, h =>
    cases line : TemplateLine.read raw with
    | blank =>
      rw [addLines_blank line] at h
      obtain ⟨made, amounts⟩ := addLines_amounts h
      refine ⟨made, fun m pending' same store grown => ?_⟩
      rw [addLines_blank line]
      exact amounts (m + 1) pending' same store grown
    | rule text =>
      obtain ⟨p, r, rfl, reads, h⟩ := (addLines_rule line).mp h
      obtain ⟨made, amounts⟩ := addLines_amounts h
      refine ⟨made, fun m pending' same store grown => ?_⟩
      obtain ⟨q, rfl, kept⟩ := Option.map_eq_some_iff.mp same
      have kept : q.declaration = p.declaration := kept
      have added : (q.addRule r).declaration = (p.addRule r).declaration := by
        simp only [Pending.addRule, kept]
      rw [addLines_rule line, ← amounts (m + 1) (some (q.addRule r)) (congrArg some added)]
      constructor
      · rintro ⟨q', r', there, reads', h⟩
        obtain rfl := Option.some.inj there
        rw [kept, reads] at reads'
        cases reads'
        exact h
      · exact fun h => ⟨q, r, rfl, kept ▸ reads, h⟩
    | inclusion target =>
      obtain ⟨settled, included, -, named, adds, h⟩ := (addLines_inclusion line).mp h
      obtain ⟨inner, includes⟩ := addFile_amounts adds
      obtain ⟨later, amounts⟩ := addLines_amounts h
      refine ⟨(pending.map (·.declaration)).toList ++ (inner ++ later),
        fun m pending' same store grown => ?_⟩
      rw [addLines_inclusion line, List.foldlM_append, bind_eq_ok]
      simp only [List.foldlM_append, bind_eq_ok, settle_eq_ok, same, named, true_and,
        includes _ _, amounts (m + 1) none rfl _ _, exists_and_left]
    | declaration text =>
      obtain ⟨settled, d, -, reads, h⟩ := (addLines_declaration line).mp h
      obtain ⟨later, amounts⟩ := addLines_amounts h
      refine ⟨(pending.map (·.declaration)).toList ++ later, fun m pending' same store grown => ?_⟩
      rw [addLines_declaration line, List.foldlM_append, bind_eq_ok]
      have declares := fun settled => amounts (m + 1) (some ⟨d, m⟩) rfl settled grown
      simp only [settle_eq_ok, same, reads, Except.ok.injEq, exists_and_left, exists_eq_left',
        declares]
    | unknown text => exact absurd h (addLines_unknown line)
termination_by (unvisited (places fs) chain, raws.length + 1)
decreasing_by
  all_goals exact Prod.Lex.right _ (by simp)

end

/-! ## Texts one after the other -/

/-- Behind a text that makes a store, a text makes what it makes alone, beside the definitions that
are there. -/
theorem read_append_joins {s t : String} {a b : Store} (ended : Text.Ended s.toList)
    (apart : a.Apart b) (reads : read fs s = .ok a) (reads' : read fs t = .ok b) :
    ∃ c, read fs (s ++ t) = .ok c ∧ a.Joins b c := by
  obtain ⟨made, amounts⟩ := addLines_amounts reads'
  have alone := (amounts 1 none rfl ∅ b).mp reads'
  obtain ⟨c, declared, joins⟩ := Store.foldlM_declare_beside apart (Store.joins_empty a) alone
  refine ⟨c, ?_, joins⟩
  rw [read, String.toList_append, Text.lines_append ended, addLines_append (fresh_of_read reads'),
    bind_eq_ok]
  exact ⟨a, reads, (amounts _ none rfl a c).mpr declared⟩

/-- **Reading is compositional.** A text that ends with a line feed and one that defines nothing of
the same kind and name are read, one after the other, as their stores merged. The order of the texts
does not matter. -/
theorem read_append_merges {fs : Files} {s t : String} {a b : Store} (ended : Text.Ended s.toList)
    (reads : read fs s = .ok a) (reads' : read fs t = .ok b) (apart : a.Apart b) :
    ∃ c, a.merge b = (c, none) ∧ read fs (s ++ t) = .ok c ∧
      (Text.Ended t.toList → read fs (t ++ s) = .ok c) := by
  obtain ⟨c, merged, joins⟩ :=
    Store.merge_of_apart (read_declares reads').wellFormed.keyed apart
  obtain ⟨c', append, joins'⟩ := read_append_joins ended apart reads reads'
  obtain rfl := joins.unique joins'
  refine ⟨c, merged, append, fun ended' => ?_⟩
  obtain ⟨c', append', joins'⟩ := read_append_joins ended' apart.symm reads' reads
  obtain rfl := joins.unique (joins'.symm apart.symm)
  exact append'

theorem read_append_merges_greeting : ∃ a b c : Store,
    read {} "~[hi]\n  hello\n" = .ok a ∧ read {} "%[hi](2)\n  ~[hi] you\n" = .ok b ∧
      a.merge b = (c, none) ∧ read {} "~[hi]\n  hello\n%[hi](2)\n  ~[hi] you\n" = .ok c ∧
      read {} "%[hi](2)\n  ~[hi] you\n~[hi]\n  hello\n" = .ok c := by
  let word : Definition := ⟨"hi", .alias, false, [⟨none, none, [⟨[.word "hello"], none⟩]⟩]⟩
  let call : Definition := ⟨"hi", .intent, false, [⟨none, some 2,
    [⟨[.reference .alias "hi" ⟨false, none, none, none⟩, .word "you"], none⟩]⟩]⟩
  let a : Store := ⟨⟨[("hi", word)], by decide⟩, ∅, ∅⟩
  let b : Store := ⟨∅, ∅, ⟨[("hi", call)], by decide⟩⟩
  have reads : read {} "~[hi]\n  hello\n" = .ok a := by cbv
  have reads' : read {} "%[hi](2)\n  ~[hi] you\n" = .ok b := by cbv
  have apart : a.Apart b := by
    intro kind name
    cases kind
    · exact .inr rfl
    · exact .inl rfl
    · exact .inl rfl
  have ended : Text.Ended "~[hi]\n  hello\n".toList := by decide
  have ended' : Text.Ended "%[hi](2)\n  ~[hi] you\n".toList := by decide
  obtain ⟨c, merged, append, append'⟩ := read_append_merges ended reads reads' apart
  exact ⟨a, b, c, reads, reads', merged, append, append' ended'⟩

end Template
end Phrasebook
