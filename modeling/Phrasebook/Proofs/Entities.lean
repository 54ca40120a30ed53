import Mathlib.Data.List.Infix
import Phrasebook.Proofs.Recasing

/-!
# Entities in what is rendered

An entity carries its text and not the place where it stands, and is recased apart from the text it
stands in. Where the words are ASCII the two go together: the text of an entity is never empty and
always occurs in the fragment.

* `Fragment.Anchored`: a fragment of this kind. Every step that makes a fragment of others keeps it;
* `Fragment.recase_marks`: recasing leaves the slots and the values of all entities as they are;
* `Store.Fills`, `Store.Marks`: what a run fills a slot with, and what listing marks as one;
* `entities_of_ascii`: where the entities of a rule come from.
-/

namespace Phrasebook

namespace Text

/-! ## ASCII texts -/

def Ascii (s : List Char) : Prop := ∀ c ∈ s, c.toNat < 128

instance (s : List Char) : Decidable (Ascii s) :=
  List.decidableBAll _ s

theorem ascii_ofNat {n : Nat} (ascii : n < 128) : (Char.ofNat n).toNat < 128 := by
  have valid : n.isValidChar := .inl (by omega)
  rw [Char.ofNat, dif_pos valid]
  exact ascii

theorem ascii_formOf {shifts : List Shift} {sequences : List (Nat × List Nat)}
    (sequenced : ∀ e ∈ sequences, e.1 < 128 → ∀ code ∈ e.2, code < 128)
    (shifted : ∀ s ∈ shifts, s.first < 128 → s.last + s.distance < 128) {c : Char}
    (ascii : c.toNat < 128) : Ascii (formOf shifts sequences c) := by
  intro d hd
  rcases formOf_cases shifts sequences c with ⟨codes, listed, form⟩ | ⟨s, hs, holds, form⟩ | form
  · rw [form] at hd
    obtain ⟨code, hc, rfl⟩ := List.mem_map.mp hd
    exact ascii_ofNat (sequenced _ listed ascii code hc)
  · rw [form, List.mem_singleton] at hd
    simp only [Shift.holds, Bool.and_eq_true, decide_eq_true_eq] at holds
    have below := shifted s hs (by omega)
    rw [hd]
    exact ascii_ofNat (by omega)
  · rw [form, List.mem_singleton] at hd
    exact hd ▸ ascii

theorem ascii_capital (c : Char) (ascii : c.toNat < 128) : Ascii (capital c) :=
  ascii_formOf (by decide +kernel) (by decide +kernel) ascii

theorem ascii_small (c : Char) (ascii : c.toNat < 128) : Ascii (small c) :=
  ascii_formOf (by decide +kernel) (by decide +kernel) ascii

theorem Ascii.flatMap {s : List Char} (h : Ascii s) {form : Char → List Char}
    (forms : ∀ c, c.toNat < 128 → Ascii (form c)) : Ascii (s.flatMap form) := by
  intro d hd
  obtain ⟨c, hc, hd⟩ := List.mem_flatMap.mp hd
  exact forms c (h c hc) d hd

theorem Ascii.capitals {s : List Char} (h : Ascii s) : Ascii (capitals s) :=
  h.flatMap ascii_capital

theorem Ascii.capitalized {s : List Char} (h : Ascii s) : Ascii (capitalized s) := by
  cases s with
  | nil => exact h
  | cons c rest =>
    intro d hd
    rcases List.mem_append.mp hd with hd | hd
    · exact ascii_capital c (h c List.mem_cons_self) d hd
    · exact h d (List.mem_cons_of_mem _ hd)

/-- Without a capital sigma each letter has a small form of its own. -/
theorem smalls_of_ascii {s : List Char} (h : Ascii s) : smalls s = s.flatMap small := by
  suffices all : ∀ before, smallsAfter before s = s.flatMap small from all []
  induction s with
  | nil => exact fun _ => rfl
  | cons c rest ih =>
    intro before
    have other : c ≠ '\u03A3' := fun sigma => by
      have code := sigma ▸ h c List.mem_cons_self
      exact absurd code (by decide)
    have rest' := ih (fun d hd => h d (List.mem_cons_of_mem _ hd)) (c :: before)
    rw [smallsAfter, if_neg other, rest', List.flatMap_cons]

theorem Ascii.smalls {s : List Char} (h : Ascii s) : Ascii (smalls s) :=
  smalls_of_ascii h ▸ h.flatMap ascii_small

/-! ## Occurrences -/

theorem prefix_capitalized {s t : List Char} (h : s <+: t) : capitalized s <+: capitalized t := by
  cases s with
  | nil => exact List.nil_prefix
  | cons c rest =>
    cases t with
    | nil => exact absurd (List.prefix_nil.mp h) (List.cons_ne_nil _ _)
    | cons d further =>
      obtain ⟨rfl, more⟩ := List.cons_prefix_cons.mp h
      exact (List.prefix_append_right_inj _).mpr more

/-- A text that does not open the other occurs in what capitalizing leaves as it is. -/
theorem infix_capitalized {s t : List Char} (closed : ¬ s <+: t) (h : s <:+: t) :
    s <:+: capitalized t := by
  cases t with
  | nil => exact absurd (List.infix_nil.mp h ▸ List.nil_prefix) closed
  | cons c rest =>
    have inside := (List.infix_cons_iff.mp h).resolve_left closed
    exact List.infix_append_of_infix_right inside

end Text

namespace Casing

open Text

theorem apply_ascii (c : Casing) {s : String} (h : Ascii s.toList) : Ascii (c.apply s).toList := by
  cases c with
  | asWritten => exact h
  | upper =>
    rw [apply, String.toList_ofList]
    exact h.capitals
  | lower =>
    rw [apply, String.toList_ofList]
    exact h.smalls
  | capitalized =>
    rw [apply, String.toList_ofList]
    exact h.capitalized

theorem apply_infix {c : Casing} (each : c ≠ .capitalized) {s t : String} (ascii : Ascii t.toList)
    (h : s.toList <:+: t.toList) : (c.apply s).toList <:+: (c.apply t).toList := by
  cases c with
  | asWritten => exact h
  | upper =>
    simp only [apply, String.toList_ofList]
    exact h.flatMap capital
  | lower =>
    have ascii' : Ascii s.toList := fun d hd => ascii d (h.subset hd)
    simp only [apply, String.toList_ofList, smalls_of_ascii ascii, smalls_of_ascii ascii']
    exact h.flatMap small
  | capitalized => exact absurd rfl each

end Casing

/-- What an entity says, apart from how its text is written. -/
def Entity.mark (e : Entity) : String × String := (e.slot, e.value)

/-- The text of the entity is not empty, and the fragment has it in one piece. -/
structure Entity.Occurs (e : Entity) (f : Fragment) : Prop where
  filled : e.text ≠ ""
  inside : e.text.toList <:+: f.text.toList

theorem Entity.Occurs.further {e : Entity} {f g : Fragment} (h : e.Occurs f)
    (part : f.text.toList <:+: g.text.toList) : e.Occurs g :=
  ⟨h.filled, h.inside.trans part⟩

namespace Fragment

open Casing

theorem recase_marks (c : Casing) (f : Fragment) :
    (f.recase c).entities.map Entity.mark = f.entities.map Entity.mark := by
  simp only [recase, List.map_map]
  apply List.map_congr_left
  intro e _
  simp only [Function.comp]
  split <;> rfl

/-- The text is ASCII, and all entities occur in it. -/
structure Anchored (f : Fragment) : Prop where
  ascii : Text.Ascii f.text.toList
  occurs : ∀ e ∈ f.entities, e.Occurs f

theorem occurs_capitalizedIn {f : Fragment} {e : Entity} (h : e.Occurs f) :
    (f.capitalizedIn e).Occurs (f.recase .capitalized) := by
  have text : (f.recase .capitalized).text.toList = Text.capitalized f.text.toList :=
    String.toList_ofList
  unfold capitalizedIn
  by_cases opens : e.Opens f
  · have filled : capitalized.apply e.text ≠ "" := mt apply_eq_empty.mp h.filled
    rw [if_pos opens]
    refine ⟨filled, ?_⟩
    simp only [text, apply, String.toList_ofList]
    exact (Text.prefix_capitalized opens).isInfix
  · rw [if_neg opens]
    exact ⟨h.filled, text ▸ Text.infix_capitalized opens h.inside⟩

theorem Anchored.recase {f : Fragment} (h : f.Anchored) (c : Casing) : (f.recase c).Anchored where
  ascii := c.apply_ascii h.ascii
  occurs e he := by
    by_cases each : c = .capitalized
    · subst each
      rw [recase_capitalized] at he
      obtain ⟨own, listed, rfl⟩ := List.mem_map.mp he
      exact occurs_capitalizedIn (h.occurs own listed)
    · obtain ⟨own, listed, rfl⟩ := List.mem_map.mp he
      have occurs := h.occurs own listed
      simp only [ne_eq, each, not_false_eq_true, decide_true, Bool.true_or, if_true]
      exact ⟨mt apply_eq_empty.mp occurs.filled, apply_infix each h.ascii occurs.inside⟩

theorem Anchored.append {f g : Fragment} (h : f.Anchored) (after : g.Anchored) :
    (f.append g).Anchored := by
  constructor
  · intro c hc
    rcases mem_joinTexts hc with hc | rfl | hc
    · exact h.ascii c hc
    · decide
    · exact after.ascii c hc
  · intro e he
    rcases List.mem_append.mp he with he | he
    · exact (h.occurs e he).further (prefix_joinTexts f.text g.text).isInfix
    · exact (after.occurs e he).further (suffix_joinTexts f.text g.text).isInfix

theorem Anchored.tagged {f : Fragment} (h : f.Anchored) (slot : String) (value : Option String)
    (written : String) : (f.tagged slot value written).Anchored := by
  have whole : f.text.toList <:+: (f.tagged slot value written).text.toList := by
    simp only [tagged_text, List.infix_refl]
  constructor
  · rw [tagged_text]
    exact h.ascii
  · intro e he
    rcases mem_tagged.mp he with he | ⟨filled, rfl⟩
    · exact (h.occurs e he).further whole
    · exact ⟨filled, whole⟩

theorem kept_anchored : Kept (fun text => Text.Ascii text.toList) Anchored where
  empty := ⟨nofun, nofun⟩
  word _ ascii := ⟨ascii, nofun⟩
  append _ _ h after := h.append after
  recase c _ h := h.recase c
  tagged _ _ _ _ h := h.tagged _ _ _

end Fragment

/-- Recasing makes no entities and loses none. -/
theorem Fragment.exists_of_mem_recase {c : Casing} {f : Fragment} {e : Entity}
    (h : e ∈ (f.recase c).entities) : ∃ own ∈ f.entities, own.mark = e.mark := by
  have marked : e.mark ∈ (f.recase c).entities.map Entity.mark := List.mem_map_of_mem h
  rw [recase_marks] at marked
  exact List.mem_map.mp marked

/-- The entities of a shown fragment are its own, recased, and the one that a slot makes of it all
unless there is nothing. -/
theorem Fragment.mem_shown {kind : Kind} {name : String} {value : Option String} {c : Casing}
    {f : Fragment} {e : Entity} (h : e ∈ (f.shown kind name value c).entities) :
    e ∈ (f.recase c).entities ∨
      kind = .slot ∧ f.text ≠ "" ∧ e = ⟨name, c.apply f.text, value.getD f.text⟩ := by
  unfold shown at h
  split at h
  · next slot =>
    rcases mem_tagged.mp h with h | ⟨filled, rfl⟩
    · exact .inl h
    · exact .inr ⟨slot, mt Casing.apply_eq_empty.mpr filled, rfl⟩
  · exact .inl h

namespace Store

/-! ## Slots in a run -/

/-- The run comes to a reference to the slot, takes it and expands the drawn rule to some text. What
the slot is filled with is the value of the rule, and where it has none the text as the rule gave
it. -/
inductive Fills (s : Store) (trail : Trail) (pieces : List Piece) (pass : Pass) :
    String × String → Prop
  | intro {t slot m there next d rules rule chosen longer f last}
      (reached : s.Happens trail pieces pass (.reached t (.reference .slot slot m) there))
      (taken : there.includes m = (true, next))
      (resolves : s.resolve ⟨.slot, slot, m.variation⟩ = .ok (d, rules))
      (draws : next.choose rules = (some rule, chosen))
      (steps : t.step? ⟨.slot, slot, m.variation⟩ = some longer)
      (body : s.expandPieces longer rule.pieces chosen = (.ok f, last)) (filled : f.text ≠ "") :
      Fills s trail pieces pass (slot, rule.value.getD f.text)

theorem Fills.within {s : Store} {trail outer : Trail} {pieces others : List Piece}
    {pass before : Pass} {mark : String × String} (h : s.Fills trail pieces pass mark)
    (within : ∀ e, s.Happens trail pieces pass e → s.Happens outer others before e) :
    s.Fills outer others before mark := by
  obtain ⟨reached, taken, resolves, draws, steps, body, filled⟩ := h
  exact .intro (within _ reached) taken resolves draws steps body filled

theorem fills_of_expand (s : Store) (trail : Trail) :
    (∀ p pass f last, s.expandPiece trail p pass = (.ok f, last) →
      ∀ e ∈ f.entities, s.Fills trail [p] pass e.mark) ∧
      ∀ pieces pass f last, s.expandPieces trail pieces pass = (.ok f, last) →
        ∀ e ∈ f.entities, s.Fills trail pieces pass e.mark := by
  refine s.walk_induction (Q := fun trail p => ∀ pass f last,
    s.expandPiece trail p pass = (.ok f, last) → ∀ e ∈ f.entities, s.Fills trail [p] pass e.mark)
    (P := fun trail pieces => ∀ pass f last, s.expandPieces trail pieces pass = (.ok f, last) →
      ∀ e ∈ f.entities, s.Fills trail pieces pass e.mark)
    ?word ?group ?reference ?nil ?cons trail
  case word =>
    intro trail text pass f last run
    rw [expandPiece_word] at run
    cases run
    nofun
  case group =>
    intro trail pieces value m inner pass f last run e he
    have expanded := run ▸ s.expandPiece_expanded trail (.group pieces value m) pass
    cases expanded with
    | groupLeft => nomatch he
    | group taken body =>
      obtain ⟨own, hown, same⟩ := Fragment.exists_of_mem_recase he
      rw [← same]
      exact (inner _ _ _ body own hown).within fun _ inside => .inGroup taken inside
  case reference =>
    intro trail kind name m inner pass f last run e he
    have expanded := run ▸ s.expandPiece_expanded trail (.reference kind name m) pass
    cases expanded with
    | referenceLeft => nomatch he
    | reference taken resolves draws steps body =>
      rcases Fragment.mem_shown he with he | ⟨rfl, filled, rfl⟩
      · obtain ⟨own, hown, same⟩ := Fragment.exists_of_mem_recase he
        have inside := inner _ _ _ resolves steps _ (mem_of_choose draws) _ _ _ body own hown
        rw [← same]
        exact inside.within fun _ inside => .inRule taken resolves draws steps inside
      · exact .intro .reached taken resolves draws steps body filled
  case nil =>
    intro trail pass f last run
    rw [expandPieces_nil] at run
    cases run
    nofun
  case cons =>
    intro trail p rest first others pass f last run e he
    have expanded := run ▸ s.expandPieces_expanded trail p rest pass
    cases expanded with
    | done head tail =>
      rcases List.mem_append.mp he with he | he
      · exact (first _ _ _ head e he).within fun _ alone => alone.before rest
      · exact (others _ _ _ tail e he).within fun _ after => .later head after

/-! ## Slots in a list -/

/-- The fragment is listed for the pieces. -/
def Lists (s : Store) (trail : Trail) (pieces : List Piece) (f : Fragment) : Prop :=
  ∃ l, s.listPieces trail pieces = .ok l ∧ f ∈ l

/-- The fragment is listed for the piece. -/
def ListsOne (s : Store) (trail : Trail) (p : Piece) (f : Fragment) : Prop :=
  ∃ l, s.listPiece trail p = .ok l ∧ f ∈ l

/-- Listing the pieces, a fragment gets an entity: the first piece refers to a slot and it is made
of what is listed for one of the rules, or it is from further inside, or from further on. -/
inductive Marks (s : Store) : Trail → List Piece → Fragment → Entity → Prop
  | own {trail name m rest d rules longer rule f g}
      (there : (Piece.reference .slot name m).isExcluded = false)
      (resolves : s.resolve ⟨.slot, name, m.variation⟩ = .ok (d, rules))
      (steps : trail.step? ⟨.slot, name, m.variation⟩ = some longer) (meant : rule ∈ rules)
      (body : s.Lists longer rule.pieces f) (filled : f.text ≠ "")
      (others : s.Lists trail rest g) :
      Marks s trail (.reference .slot name m :: rest)
        ((f.shown .slot name rule.value .asWritten).append g)
        ⟨name, f.text, rule.value.getD f.text⟩
  | inRule {trail kind name m rest d rules longer rule f g e}
      (there : (Piece.reference kind name m).isExcluded = false)
      (resolves : s.resolve ⟨kind, name, m.variation⟩ = .ok (d, rules))
      (steps : trail.step? ⟨kind, name, m.variation⟩ = some longer) (meant : rule ∈ rules)
      (inside : Marks s longer rule.pieces f e) (others : s.Lists trail rest g) :
      Marks s trail (.reference kind name m :: rest)
        ((f.shown kind name rule.value .asWritten).append g) e
  | inGroup {trail pieces value m rest f g e}
      (there : (Piece.group pieces value m).isExcluded = false)
      (inside : Marks s trail pieces f e) (others : s.Lists trail rest g) :
      Marks s trail (.group pieces value m :: rest) (f.append g) e
  | later {trail p rest f g e} (first : s.ListsOne trail p f) (after : Marks s trail rest g e) :
      Marks s trail (p :: rest) (f.append g) e

theorem marks_of_list (s : Store) (trail : Trail) :
    (∀ p f, s.ListsOne trail p f → ∀ e ∈ f.entities, ∀ rest g, s.Lists trail rest g →
      s.Marks trail (p :: rest) (f.append g) e) ∧
      ∀ pieces f, s.Lists trail pieces f → ∀ e ∈ f.entities, s.Marks trail pieces f e := by
  refine s.walk_induction (Q := fun trail p => ∀ f, s.ListsOne trail p f → ∀ e ∈ f.entities,
      ∀ rest g, s.Lists trail rest g → s.Marks trail (p :: rest) (f.append g) e)
    (P := fun trail pieces => ∀ f, s.Lists trail pieces f → ∀ e ∈ f.entities,
      s.Marks trail pieces f e)
    ?word ?group ?reference ?nil ?cons trail
  case word =>
    rintro trail text f ⟨l, listed, hf⟩ e he
    rw [listPiece_word] at listed
    cases listed
    rw [List.mem_singleton.mp hf] at he
    nomatch he
  case group =>
    rintro trail pieces value m inner f ⟨l, listed, hf⟩ e he rest g others
    cases out : (Piece.group pieces value m).isExcluded with
    | true =>
      rw [listPiece_excluded out] at listed
      cases listed
      rw [List.mem_singleton.mp hf] at he
      nomatch he
    | false =>
      rw [listPiece_group out] at listed
      exact .inGroup out (inner f ⟨l, listed, hf⟩ e he) others
  case reference =>
    rintro trail kind name m inner f ⟨l, listed, hf⟩ e he rest g others
    cases out : (Piece.reference kind name m).isExcluded with
    | true =>
      rw [listPiece_excluded out] at listed
      cases listed
      rw [List.mem_singleton.mp hf] at he
      nomatch he
    | false =>
      obtain ⟨d, rules, longer, resolves, steps, listed⟩ := listPiece_reference_eq_ok out listed
      obtain ⟨r, hr, own, body, h, hh, rfl⟩ := mem_listRules listed hf
      rcases Fragment.mem_shown he with he | ⟨rfl, filled, rfl⟩
      · rw [Fragment.recase_asWritten] at he
        have inside := inner d rules longer resolves steps r hr h ⟨own, body, hh⟩ e he
        exact .inRule out resolves steps hr inside others
      · exact .own out resolves steps hr ⟨own, body, hh⟩ filled others
  case nil =>
    rintro trail f ⟨l, listed, hf⟩ e he
    rw [listPieces_nil] at listed
    cases listed
    rw [List.mem_singleton.mp hf] at he
    nomatch he
  case cons =>
    rintro trail p rest first others f ⟨l, listed, hf⟩ e he
    obtain ⟨heads, tails, head, tail, rfl⟩ := listPieces_cons_eq_ok listed
    obtain ⟨g, hg, h, hh, rfl⟩ := mem_combine.mp hf
    rcases List.mem_append.mp he with he | he
    · exact first g ⟨heads, head, hg⟩ e he rest h ⟨tails, tail, hh⟩
    · exact .later ⟨heads, head, hg⟩ (others h ⟨tails, tail, hh⟩ e he)

/-- **Entities occur in the utterance.** Where all words are ASCII, every entity of what a run gives
or of what is listed has a text that occurs in it, and comes from a slot that was expanded on the
way, with the value of the rule or the text that the rule gave. No casing changes that. -/
theorem entities_of_ascii {s : Store} {r : Rule}
    (ascii : ∀ text ∈ r.words ++ s.words, Text.Ascii text.toList) :
    (∀ trail pass f, (s.expandRule trail r pass).1 = .ok f →
      ∀ e ∈ f.entities, e.Occurs f ∧ s.Fills trail r.pieces pass e.mark) ∧
      (∀ trail l, s.listRule trail r = .ok l →
        ∀ f ∈ l, ∀ e ∈ f.entities, e.Occurs f ∧ s.Marks trail r.pieces f e) ∧
      ∀ c (f : Fragment), (f.recase c).entities.map Entity.mark = f.entities.map Entity.mark := by
  obtain ⟨run, list⟩ := kept_of_words Fragment.kept_anchored ascii
  refine ⟨?_, ?_, Fragment.recase_marks⟩
  · intro trail pass f given e he
    have occurs := (run trail pass f given).occurs e he
    exact ⟨occurs, (s.fills_of_expand trail).2 r.pieces pass f _ (Prod.ext given rfl) e he⟩
  · intro trail l listed f hf e he
    have occurs := (list trail l listed f hf).occurs e he
    exact ⟨occurs, (s.marks_of_list trail).2 r.pieces f ⟨l, listed, hf⟩ e he⟩

/-- A name in a name, both recased along with the greeting. -/
theorem entities_of_ascii_greeting : ∃ (s : Store) (r : Rule) (pass : Pass) (f : Fragment)
    (l : List Fragment),
    Template.read {} "@[name]\n  bob = robert\n  @[&nick]\n@[nick]\n  bobby\n" = .ok s ∧
      Rule.read "[&hi @[name]]" = .ok r ∧
      (∀ text ∈ r.words ++ s.words, Text.Ascii text.toList) ∧
      (s.expandRule [] r pass).1 = .ok f ∧ f.text = "Hi Bobby" ∧
      f.entities = [⟨"nick", "Bobby", "bobby"⟩, ⟨"name", "Bobby", "Bobby"⟩] ∧
      (∀ e ∈ f.entities, e.Occurs f ∧ s.Fills [] r.pieces pass e.mark) ∧
      s.listRule [] r = .ok l ∧ l.map (·.text) = ["hi bob", "hi bobby"] ∧
      (∀ f ∈ l, ∀ e ∈ f.entities, e.Occurs f ∧ s.Marks [] r.pieces f e) ∧
      (f.recase .lower).entities.map Entity.mark = f.entities.map Entity.mark := by
  let name : Definition := ⟨"name", .slot, false, [⟨none, none, [⟨[.word "bob"], some "robert"⟩,
    ⟨[.reference .slot "nick" { casing := true }], none⟩]⟩]⟩
  let nick : Definition := ⟨"nick", .slot, false, [⟨none, none, [⟨[.word "bobby"], none⟩]⟩]⟩
  let s : Store := ⟨∅, ⟨[("name", name), ("nick", nick)], by decide⟩, ∅⟩
  let r : Rule := ⟨[.group [.word "hi", .reference .slot "name" {}] none { casing := true }], none⟩
  let pass : Pass := ⟨⟨fun _ => 0xFFFFFFFF, 0⟩, []⟩
  let f : Fragment := ⟨"Hi Bobby", [⟨"nick", "Bobby", "bobby"⟩, ⟨"name", "Bobby", "Bobby"⟩]⟩
  have loaded :
      Template.read {} "@[name]\n  bob = robert\n  @[&nick]\n@[nick]\n  bobby\n" = .ok s := by cbv
  have read : Rule.read "[&hi @[name]]" = .ok r := by cbv
  have ascii : ∀ text ∈ r.words ++ s.words, Text.Ascii text.toList := by decide +kernel
  have run : (s.expandRule [] r pass).1 = .ok f := by cbv
  have listed : s.listRule [] r = .ok [⟨"hi bob", [⟨"name", "bob", "robert"⟩]⟩,
    ⟨"hi bobby", [⟨"nick", "bobby", "bobby"⟩, ⟨"name", "bobby", "bobby"⟩]⟩] := by cbv
  obtain ⟨runs, lists, recased⟩ := entities_of_ascii ascii
  exact ⟨s, r, pass, f, _, loaded, read, ascii, run, rfl, rfl, runs [] pass f run, listed, rfl,
    lists [] _ listed, recased .lower f⟩

end Store
end Phrasebook
