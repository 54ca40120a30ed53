import Phrasebook.Proofs.Making
import Phrasebook.Proofs.Rows
import Phrasebook.Shell.Session

/-!
# Definitions that are shown

A session shows a definition in template form. The text is a template of this one definition just
when it is rereadable.

* `Definition.erased`, `Definition.Rereadable`: what can be written, and what is left unescaped that
  should not be;
* `Definition.toList_written`, `Definition.seen_written`: the rows that are written, and what they
  are read as;
* `Definition.read_written`: the template declares the definition again just when it is rereadable;
* `Session.show_rereads`: so it is for what a session shows, and `Session.show_misread`: which is
  not always.
-/

namespace Phrasebook

open Text

/-- A variation without the variations of groups, which are not written. -/
def Variation.erased (v : Variation) : Variation := { v with rules := v.rules.map Rule.erased }

namespace Definition

def erased (d : Definition) : Definition :=
  { d with variations := d.variations.map Variation.erased }

/-- Names mean themselves where they are written as they are, and rules are rereadable. -/
structure Rereadable (d : Definition) : Prop where
  name : Bare d.name.toList
  unmarked : d.casing = false → d.name.toList.head? ≠ some '&'
  variations : ∀ v ∈ d.variations,
    (∀ n, v.name = some n → Bare n.toList) ∧ ∀ r ∈ v.rules, r.Rereadable

end Definition

/-! ## The rows that are written -/

/-- Line feeds between the rows and one at the end are one behind each. -/
theorem flatMap_feed (row : List Char) (rows : List (List Char)) :
    row ++ rows.flatMap ('\n' :: ·) ++ ['\n'] = (row :: rows).flatMap (· ++ ['\n']) := by
  induction rows generalizing row with
  | nil => simp
  | cons next rows ih =>
    rw [List.flatMap_cons, List.flatMap_cons, ← ih next]
    simp

namespace Variation

variable {kind : Kind} {name : String} {casing : Bool} {v : Variation}

theorem toList_written (sound : ∀ r ∈ v.rules, r.Sound) :
    (v.written kind name casing).toList =
      (v.rows kind name casing).flatMap (· ++ ['\n']) := by
  have rules : (v.rules.map fun r => "\n  " ++ r.written).flatMap String.toList =
      (v.rules.map Rule.row).flatMap ('\n' :: ·) := by
    rw [List.flatMap_map, List.flatMap_map]
    refine List.flatMap_congr fun r hr => ?_
    rw [String.toList_append, Spelling.toList_written (sound r hr)]
    rfl
  rw [rows, ← flatMap_feed, ← rules, head, (v.parts kind name casing).text_append rfl rfl]
  obtain ⟨varied, count, texts⟩ := v
  cases varied <;> cases count <;> cases casing <;>
    simp [written, parts, asked, digitsOf, Block.Parts.writtenVariation]

end Variation

namespace Definition

variable {kind : Kind} {name : String} {d : Definition}

def rows (kind : Kind) (name : String) (d : Definition) : List (List Char) :=
  d.variations.flatMap (·.rows kind name d.casing)

theorem toList_written (sound : ∀ v ∈ d.variations, ∀ r ∈ v.rules, r.Sound) :
    (d.written kind name).toList = trimEnd ((d.rows kind name).flatMap (· ++ ['\n'])) := by
  have blocks : (d.variations.map (·.written kind name d.casing)).flatMap String.toList =
      (d.rows kind name).flatMap (· ++ ['\n']) := by
    rw [List.flatMap_map, rows, List.flatMap_assoc]
    exact List.flatMap_congr fun v hv => Variation.toList_written (sound v hv)
  rw [written, String.toList_ofList, String.toList_join, blocks]

/-- What the heads and the rules below each of them are read as. -/
def sights (kind : Kind) (name : String) (d : Definition) :
    List (List Char × List (List Char)) :=
  d.variations.map (·.sights kind name d.casing)

end Definition

namespace TemplateLine

theorem seen_append (raws others : List (List Char)) :
    seen (raws ++ others) = seen raws ++ seen others := by
  simp [seen]

theorem seen_flatMap {α : Type} (rows : α → List (List Char)) (l : List α) :
    seen (l.flatMap rows) = l.flatMap fun a => seen (rows a) := by
  induction l with
  | nil => rfl
  | cons a l ih => rw [List.flatMap_cons, seen_append, ih, List.flatMap_cons]

end TemplateLine

namespace Definition

variable {kind : Kind} {name : String} {d : Definition}

theorem seen_rows (sound : ∀ v ∈ d.variations, ∀ r ∈ v.rules, r.Sound) :
    TemplateLine.seen (d.rows kind name) =
      (d.sights kind name).flatMap fun p => .declaration p.1 :: p.2.map .rule := by
  rw [rows, TemplateLine.seen_flatMap, sights, List.flatMap_map]
  exact List.flatMap_congr fun v hv => Variation.seen_rows (sound v hv)

theorem seen_written (wellFormed : d.WellFormed kind name) (lined : d.Lined name) :
    TemplateLine.seen (lines (d.written kind name).toList) =
      (d.sights kind name).flatMap fun p => .declaration p.1 :: p.2.map .rule := by
  have sound : ∀ v ∈ d.variations, ∀ r ∈ v.rules, r.Sound :=
    fun v hv r hr => ((wellFormed.variations v hv).rules r hr).sound
  have steady : ∀ row ∈ d.rows kind name, Steady row := by
    intro row hr
    obtain ⟨v, hv, here⟩ := List.mem_flatMap.mp hr
    exact Variation.steady_rows (lined.variations v hv) lined.name (sound v hv) row here
  rw [toList_written sound, TemplateLine.seen_trimEnd steady, seen_rows sound]

end Definition

/-! ## Reading them again -/

theorem Rule.listed_rows {kind : Kind} {rules : List Rule}
    (wellFormed : ∀ r ∈ rules, r.WellFormed kind) :
    Listed kind ((rules.map rowText).filter (· ≠ [])) (rules.map erased) ↔
      ∀ r ∈ rules, r.Rereadable := by
  have each : Listed kind (rules.map rowText) (rules.map erased) ↔ ∀ r ∈ rules, r.Rereadable := by
    rw [Listed, List.forall₂_map_left_iff, List.forall₂_map_right_iff, List.forall₂_same]
    exact forall₂_congr fun r hr => readFor_trimmed (wellFormed r hr)
  constructor
  · intro listed
    -- a row that is taken for a blank line leaves fewer rules than there were
    have full : ((rules.map rowText).filter (· ≠ [])).length = (rules.map rowText).length := by
      rw [listed.length_eq, List.length_map, List.length_map]
    rw [List.filter_eq_self.mpr (List.length_filter_eq_length_iff.mp full)] at listed
    exact each.mp listed
  · intro rereadable
    have filled : ∀ text ∈ rules.map rowText, decide (text ≠ []) = true := by
      intro text ht
      obtain ⟨r, hr, rfl⟩ := List.mem_map.mp ht
      have sound := (wellFormed r hr).sound
      rw [rowText, Spelling.trim_rule sound (rereadable r hr).pieces.visible]
      simpa using Spelling.rule_ne_nil sound
    rw [List.filter_eq_self.mpr filled]
    exact each.mpr rereadable

namespace Variation

variable {kind : Kind} {name : String} {casing : Bool} {v : Variation}

/-- What a variation's rows make when they can be read back. -/
def declared (kind : Kind) (name : String) (casing : Bool) (v : Variation) : Declaration :=
  ⟨kind, name, casing, v.erased⟩

theorem madeOf_sights (wellFormed : v.WellFormed kind) (named : allBlank name.toList = false)
    (bare : v.Bare name casing) (rereadable : ∀ r ∈ v.rules, r.Rereadable) :
    Declaration.MadeOf (v.sights kind name casing).1 (v.sights kind name casing).2
      (v.declared kind name casing) := by
  refine ⟨_, v.rules.map Rule.erased,
    (read_prepared_head wellFormed.toHeaded named).mpr bare,
    (Rule.listed_rows wellFormed.rules).mpr rereadable, ?_⟩
  simp [declared, erased, Declaration.extend]

theorem rereadable_of_madeOf (wellFormed : v.WellFormed kind) {decl : Declaration}
    (made : Declaration.MadeOf (v.sights kind name casing).1 (v.sights kind name casing).2 decl)
    (known : decl.kind = kind) (titled : decl.name = name)
    (cased : casing = false → decl.casing = false) (same : decl.variation = v.erased) :
    v.Bare name casing ∧ ∀ r ∈ v.rules, r.Rereadable := by
  obtain ⟨start, rules, read, listed, rfl⟩ := made
  have nothing := Declaration.read_rules read
  obtain ⟨varied, -, texts⟩ := Variation.mk.inj same
  rw [nothing, List.nil_append] at texts
  have known : start.kind = kind := known
  rw [texts, known] at listed
  exact ⟨bare_of_read read known titled cased varied,
    (Rule.listed_rows wellFormed.rules).mp listed⟩

end Variation

namespace Definition

variable {kind : Kind} {name : String} {d : Definition}

theorem rereadable_iff (wellFormed : d.WellFormed kind name) : d.Rereadable ↔
    ∀ v ∈ d.variations, v.Bare name d.casing ∧ ∀ r ∈ v.rules, r.Rereadable := by
  constructor
  · intro h v hv
    obtain ⟨varied, rules⟩ := h.variations v hv
    exact ⟨⟨wellFormed.name_eq ▸ h.name, wellFormed.name_eq ▸ h.unmarked, varied⟩, rules⟩
  · intro h
    obtain ⟨v, hv⟩ := List.exists_mem_of_ne_nil _ wellFormed.nonempty
    obtain ⟨bare, -⟩ := h v hv
    exact ⟨wellFormed.name_eq ▸ bare.title, wellFormed.name_eq ▸ bare.unmarked,
      fun v hv => ⟨(h v hv).1.variation, (h v hv).2⟩⟩

theorem joined_declared (wellFormed : d.WellFormed kind name) :
    (start kind name).joined (d.variations.map (·.declared kind name d.casing)) = d.erased := by
  have casing : ((d.variations.map (·.declared kind name d.casing)).any (·.casing)) = d.casing := by
    obtain ⟨v, rest, same⟩ := List.exists_cons_of_ne_nil wellFormed.nonempty
    rw [same]
    cases marked : d.casing <;> simp [Variation.declared]
  rw [joined, casing]
  simp [erased, start, Variation.declared, Function.comp_def, wellFormed.kind_eq,
    wellFormed.name_eq]

theorem accepts_declared (wellFormed : d.WellFormed kind name) :
    (start kind name).Accepts (d.variations.map (·.declared kind name d.casing)) := by
  refine accepts_of_distinct ?_ ?_ ?_ ?_
  · rw [joined_declared wellFormed]
    simpa [erased, Variation.erased, Function.comp_def] using wellFormed.distinct
  · intro decl there
    obtain ⟨v, hv, rfl⟩ := List.mem_map.mp there
    exact (wellFormed.variations v hv).free
  · intro decl there n counted
    obtain ⟨v, hv, rfl⟩ := List.mem_map.mp there
    exact ((wellFormed.variations v hv).counted n counted).1
  · intro decl there
    obtain ⟨v, hv, rfl⟩ := List.mem_map.mp there
    simpa [Variation.declared, Variation.erased] using (wellFormed.variations v hv).nonempty

/-- A text with the rows of a definition is a template of it just when the definition is
rereadable. -/
theorem read_rows (wellFormed : d.WellFormed kind name) (named : allBlank name.toList = false)
    {text : String} (rows : TemplateLine.seen (lines text.toList) =
      (d.sights kind name).flatMap fun p => .declaration p.1 :: p.2.map .rule) (fs : Files) :
    Template.read fs text = .ok ((∅ : Store).put kind name d.erased) ↔ d.Rereadable := by
  have alone : ∀ target, .inclusion target ∉ TemplateLine.seen (lines text.toList) := by
    rw [rows]
    simp
  rw [Template.read_eq_ok alone, rows, rereadable_iff wellFormed]
  constructor
  · rintro ⟨made, makes, declares⟩
    obtain ⟨_, each, rfl⟩ := Template.makes_declarations.mp makes
    obtain ⟨-, alike, -, whole⟩ := Store.foldlM_declare_eq_put.mp declares
    have casing : d.casing = made.any (·.casing) := congrArg Definition.casing whole
    have variations : d.variations.map Variation.erased = made.map (·.variation) :=
      congrArg Definition.variations whole
    rw [sights, List.forall₂_map_left_iff, List.forall₂_iff_get] at each
    intro v hv
    obtain ⟨i, bound, rfl⟩ := List.getElem_of_mem hv
    have bound' : i < made.length := each.1 ▸ bound
    have there : made[i] ∈ made := List.getElem_mem bound'
    have same : made[i].variation = (d.variations[i]).erased := by
      have both := List.getElem_of_eq variations (by simpa using bound)
      simpa using both.symm
    obtain ⟨known, titled⟩ := alike made[i] there
    refine Variation.rereadable_of_madeOf (wellFormed.variations _ hv) (each.2 i bound bound')
      known titled (fun unmarked => ?_) same
    rw [unmarked] at casing
    exact Bool.eq_false_iff.mpr (List.any_eq_false.mp casing.symm made[i] there)
  · intro rereadable
    have each : List.Forall₂ (fun p decl => Declaration.MadeOf p.1 p.2 decl) (d.sights kind name)
        (d.variations.map (·.declared kind name d.casing)) := by
      rw [sights, List.forall₂_map_left_iff, List.forall₂_map_right_iff, List.forall₂_same]
      intro v hv
      obtain ⟨bare, rules⟩ := rereadable v hv
      exact Variation.madeOf_sights (wellFormed.variations v hv) named bare rules
    refine ⟨_, Template.makes_declarations.mpr ⟨_, each, rfl⟩, ?_⟩
    refine Store.foldlM_declare_eq_put.mpr ⟨?_, ?_, accepts_declared wellFormed,
      (joined_declared wellFormed).symm⟩
    · simpa using wellFormed.nonempty
    · intro decl there
      obtain ⟨v, hv, rfl⟩ := List.mem_map.mp there
      exact ⟨rfl, rfl⟩

/-- What is written of a definition is a template of it just when it is rereadable, and so it is
with a line feed behind it. -/
theorem read_written (wellFormed : d.WellFormed kind name) (lined : d.Lined name) (fs : Files) :
    (Template.read fs (d.written kind name) = .ok ((∅ : Store).put kind name d.erased) ↔
        d.Rereadable) ∧
      (Template.read fs (d.written kind name ++ "\n") = .ok ((∅ : Store).put kind name d.erased) ↔
        d.Rereadable) := by
  have rows := seen_written wellFormed lined
  have ends : ∀ c ∈ (d.written kind name).toList.getLast?, isBlank c = false := by
    rw [written, String.toList_ofList]
    exact getLast?_trimEnd _
  have feed : (d.written kind name ++ "\n").toList = (d.written kind name).toList ++ ['\n'] :=
    String.toList_append
  refine ⟨read_rows wellFormed lined.named rows fs, read_rows wellFormed lined.named ?_ fs⟩
  rw [feed, TemplateLine.seen_feed ends, rows]

end Definition

/-! ## Sessions -/

namespace Session

theorem run_show {s : Session} {kind : Kind} {name : String} {file : Option String} {reply : Reply}
    {next : Session} (shown : s.run (.showDefinition kind name) file = (.ok reply, next)) :
    ∃ d, s.generator.store.find? kind name = some d ∧ reply.text = some (d.written kind name) := by
  obtain ⟨reads, -⟩ := Prod.mk.inj shown
  obtain ⟨d, there, rfl⟩ := map_eq_ok.mp (Answer.of_eq_ok.mp reads)
  refine ⟨d, ?_, rfl⟩
  unfold Store.get at there
  split at there
  · next found =>
    cases there
    exact found
  · cases there

/-- **What a session shows is a template of the definition just when the definition is rereadable**,
whatever the template that it comes from. With or without the line feed that the console puts behind
it, the text is then read as a store that holds this definition and nothing else. -/
theorem show_rereads {fs : Files} {text : String} {s : Session}
    (loaded : Template.read fs text = .ok s.generator.store) {kind : Kind} {name : String}
    {file : Option String} {reply : Reply} {next : Session}
    (shown : s.run (.showDefinition kind name) file = (.ok reply, next)) :
    ∃ d printed, s.generator.store.find? kind name = some d ∧ d.kind = kind ∧ d.name = name ∧
      reply.text = some printed ∧ ∀ fs',
        (Template.read fs' printed = .ok ((∅ : Store).put kind name d.erased) ↔ d.Rereadable) ∧
        (Template.read fs' (printed ++ "\n") = .ok ((∅ : Store).put kind name d.erased) ↔
          d.Rereadable) := by
  have declares := Template.read_declares loaded
  obtain ⟨d, found, printed⟩ := run_show shown
  have wellFormed := declares.wellFormed kind name d found
  have lined := Store.lined_of_declares declares kind name d found
  exact ⟨d, _, found, wellFormed.kind_eq, wellFormed.name_eq, printed,
    fun fs' => Definition.read_written wellFormed lined fs'⟩

theorem show_rereads_greeting : ∃ (s : Session) (d : Definition),
    Template.read {} "%[&hi#short](3)\n  [hey?g/80] you\\;\n%[&hi]\n  ~[name]\n" =
        .ok s.generator.store ∧
      s.run (.showDefinition .intent "hi") none =
        (.ok { text := "%[&hi#short](3)\n  [hey?g/80] you\\;\n%[&hi]\n  ~[name]" }, s) ∧
      s.generator.store.find? .intent "hi" = some d ∧
      Template.read {} "%[&hi#short](3)\n  [hey?g/80] you\\;\n%[&hi]\n  ~[name]" =
        .ok ((∅ : Store).put .intent "hi" d.erased) := by
  let short : Rule := ⟨[.group [.word "hey"] none ⟨false, none, some "g", some 80⟩,
    .word "you;"], none⟩
  let long : Rule := ⟨[.reference .alias "name" ⟨false, none, none, none⟩], none⟩
  let hi : Definition :=
    ⟨"hi", .intent, true, [⟨some "short", some 3, [short]⟩, ⟨none, none, [long]⟩]⟩
  let g : Generator := ⟨⟨∅, ∅, ⟨[("hi", hi)], by decide⟩⟩, {}⟩
  let text := "%[&hi#short](3)\n  [hey?g/80] you\\;\n%[&hi]\n  ~[name]\n"
  have rows : TemplateLine.seen (lines text.toList) =
      [.declaration "%[&hi#short](3)".toList, .rule "[hey?g/80] you;".toList,
        .declaration "%[&hi]".toList, .rule "~[name]".toList] := by cbv
  have loaded : Template.read {} text = .ok g.store := by
    have alone : ∀ target, .inclusion target ∉ TemplateLine.seen (lines text.toList) := by
      simp [rows]
    have head : Declaration.read "%[&hi#short](3)".toList =
      .ok ⟨.intent, "hi", true, ⟨some "short", some 3, []⟩⟩ := by cbv
    have head' : Declaration.read "%[&hi]".toList =
      .ok ⟨.intent, "hi", true, ⟨none, none, []⟩⟩ := by cbv
    have rule : Rule.readFor .intent (.ofList "[hey?g/80] you;".toList) = .ok short := by cbv
    have rule' : Rule.readFor .intent (.ofList "~[name]".toList) = .ok long := by cbv
    refine (Template.read_eq_ok alone).mpr
      ⟨[⟨.intent, "hi", true, ⟨some "short", some 3, [short]⟩⟩,
        ⟨.intent, "hi", true, ⟨none, none, [long]⟩⟩], ?_, ?_⟩
    · rw [rows]
      exact .declaration head (.rule rule (.declaration head' (.rule rule' .done)))
    · have stored : g.store = (∅ : Store).put .intent "hi" hi := rfl
      rw [stored, Store.foldlM_declare_eq_put]
      refine ⟨List.cons_ne_nil _ _, by simp, ⟨rfl, rfl, trivial⟩, rfl⟩
  have shown : ∀ w, Session.run ⟨g, w⟩ (.showDefinition .intent "hi") none =
      (.ok { text := "%[&hi#short](3)\n  [hey?g/80] you\\;\n%[&hi]\n  ~[name]" }, ⟨g, w⟩) := by
    intro w
    cbv
  have short_rereadable : short.Rereadable := by
    have plain : "hey".toList.all fun c => !isBlank c && !Block.isStop c := by decide
    have visible : "you;".toList.all fun c => !isBlank c := by decide
    refine ⟨⟨⟨fun _ => ?_, ?_, ?_, trivial⟩, ?_, trivial⟩, ?_⟩
    · simp [Piece.Marked]
    · intro p hp
      obtain rfl := List.mem_singleton.mp hp
      simp_all [Piece.Made]
    · simp_all [Piece.Rereadable, Piece.Made]
    · simp_all [Piece.Rereadable, Piece.Made]
    · intro v valued
      cases valued
  have long_rereadable : long.Rereadable := by
    have unmarked : "name".toList.head? ≠ some '&' := by decide
    refine ⟨⟨fun _ => unmarked, trivial⟩, ?_⟩
    intro v valued
    cases valued
  have rereadable : hi.Rereadable := by
    have plain : ("hi".toList ++ "short".toList).all fun c => !partSpecials.contains c := by decide
    have bare : Bare ("hi".toList ++ "short".toList) := fun c hc => by
      simpa using List.all_eq_true.mp plain c hc
    have title : Bare "hi".toList := fun c hc => bare c (List.mem_append_left _ hc)
    have variation : Bare "short".toList := fun c hc => bare c (List.mem_append_right _ hc)
    refine ⟨title, ?_, fun v hv => ?_⟩
    · intro unmarked
      cases unmarked
    · simp only [hi, List.mem_cons, List.not_mem_nil, or_false] at hv
      rcases hv with rfl | rfl
      · refine ⟨?_, by simpa using short_rereadable⟩
        intro n named
        cases named
        exact variation
      · refine ⟨?_, by simpa using long_rereadable⟩
        intro n named
        cases named
  obtain ⟨d, printed, found, -, -, text, reads⟩ := show_rereads loaded (shown (.seeded 0))
  obtain rfl : hi = d := Option.some.inj found
  obtain rfl := Option.some.inj text
  exact ⟨⟨g, .seeded 0⟩, hi, loaded, shown _, found, (reads {}).1.mpr rereadable⟩

/-- A name with an escaped bracket is shown without the escape, and then closes the head early. -/
theorem show_misread : ∃ s : Session,
    Template.read {} "~[a\\]b]\n  x\n" = .ok s.generator.store ∧
      (s.answer "show ~a]b").1 = .ok { text := "~[a]b]\n  x" } ∧
      ∀ fs grown, Template.read fs "~[a]b]\n  x" ≠ .ok grown := by
  let d : Definition := ⟨"a]b", .alias, false, [⟨none, none, [⟨[.word "x"], none⟩]⟩]⟩
  let g : Generator := ⟨⟨⟨[("a]b", d)], by decide⟩, ∅, ∅⟩, {}⟩
  have loaded : Template.read {} "~[a\\]b]\n  x\n" = .ok g.store := by cbv
  have shown : ∀ w, (Session.answer ⟨g, w⟩ "show ~a]b").1 = .ok { text := "~[a]b]\n  x" } := by
    intro w
    cbv
  have misread : ∀ fs, Template.read fs "~[a]b]\n  x" = .error (.locate Template.inlineName 1
      (.badLine "~[a]b]" .textAfterDeclaration)) := by
    intro fs
    cbv
  refine ⟨⟨g, .seeded 0⟩, loaded, shown _, fun fs grown reads => ?_⟩
  rw [misread] at reads
  cases reads

end Session
end Phrasebook
