import Phrasebook.Proofs.Lines
import Phrasebook.Proofs.Outcome
import Phrasebook.Template

/-!
# What templates declare

Lines, includes and pending declarations are all about one thing: a list of declarations.

* `Template.read_declares`: the store of a template is made by declaring, one after the other, what
  its lines and those of the files it includes write;
* `Store.declare_eq_ok`: what a declaration that succeeds checks and does;
* `Template.read_furnished`: every definition of a template has variations, each of them with rules,
  so whatever resolves has a rule to draw.
-/

namespace Phrasebook

/-- A declaration as a template writes it: a head, and rules that were read as rules of its kind,
each on a line of its own. -/
structure Declaration.Written (d : Declaration) : Prop where
  head : ∃ text start, '\n' ∉ text ∧ Declaration.read text = .ok start ∧
    d = { start with variation := { start.variation with rules := d.variation.rules } }
  rules : ∀ r ∈ d.variation.rules,
    ∃ line, '\n' ∉ line.toList ∧ Rule.readFor d.kind line = .ok r

theorem Declaration.read_rules {text : List Char} {d : Declaration}
    (h : Declaration.read text = .ok d) : d.variation.rules = [] := by
  simp only [Declaration.read] at h
  split at h
  · cases h
  · obtain ⟨block, _, h⟩ := bind_eq_ok.mp h
    split at h
    · cases h
    · split at h
      · cases h
      · obtain ⟨count, _, h⟩ := bind_eq_ok.mp h
        cases h
        rfl

theorem Declaration.written_of_read {text : List Char} {d : Declaration} (feedless : '\n' ∉ text)
    (h : Declaration.read text = .ok d) : d.Written where
  head := ⟨text, d, feedless, h, rfl⟩
  rules := by
    rw [Declaration.read_rules h]
    intro r hr
    cases hr

theorem Pending.written_addRule {p : Pending} {r : Rule} {line : String}
    (h : p.declaration.Written) (feedless : '\n' ∉ line.toList)
    (reads : Rule.readFor p.declaration.kind line = .ok r) :
    (p.addRule r).declaration.Written := by
  obtain ⟨text, start, feedless', read, same⟩ := h.head
  refine ⟨⟨text, start, feedless', read, ?_⟩, ?_⟩
  · simp only [addRule]
    rw [same]
  · intro r' hr
    rcases List.mem_append.mp hr with hr | hr
    · exact h.rules r' hr
    · cases List.mem_singleton.mp hr
      exact ⟨line, feedless, reads⟩

/-- A store that comes from another by declaring what is written. -/
def Store.Declares (s grown : Store) : Prop :=
  ∃ decls : List Declaration, (∀ d ∈ decls, d.Written) ∧ decls.foldlM Store.declare s = .ok grown

namespace Store

theorem Declares.refl (s : Store) : s.Declares s := ⟨[], by simp, rfl⟩

theorem Declares.trans {a b c : Store} (hab : a.Declares b) (hbc : b.Declares c) :
    a.Declares c := by
  obtain ⟨first, written, hf⟩ := hab
  obtain ⟨others, written', ho⟩ := hbc
  refine ⟨first ++ others, ?_, ?_⟩
  · intro d hd
    rcases List.mem_append.mp hd with hd | hd
    · exact written d hd
    · exact written' d hd
  · rw [List.foldlM_append, hf]
    exact ho

theorem Declares.single {s grown : Store} {d : Declaration} (written : d.Written)
    (h : s.declare d = .ok grown) : s.Declares grown := by
  refine ⟨[d], by simpa using written, ?_⟩
  rw [List.foldlM_cons, h]
  rfl

/-- What every declaration keeps, declaring keeps. -/
theorem Declares.keeps {P : Store → Prop} {s grown : Store} (h : s.Declares grown)
    (step : ∀ s d grown, d.Written → s.declare d = .ok grown → P s → P grown) (start : P s) :
    P grown := by
  obtain ⟨decls, written, run⟩ := h
  induction decls generalizing s with
  | nil =>
    cases run
    exact start
  | cons d rest ih =>
    rw [List.foldlM_cons] at run
    obtain ⟨next, first, others⟩ := bind_eq_ok.mp run
    exact ih (step s d next (written d List.mem_cons_self) first start)
      (fun d hd => written d (List.mem_cons_of_mem _ hd)) others

end Store

theorem Pending.settle_declares {origin : String} {store grown : Store} {pending : Option Pending}
    (written : ∀ p, pending = some p → p.declaration.Written)
    (h : Pending.settle origin store pending = .ok grown) : store.Declares grown := by
  cases pending with
  | none =>
    cases h
    exact .refl store
  | some p => exact .single (written p rfl) (mapError_eq_ok.mp h)

namespace Template

/-! ## One line -/

section
variable {fs : Files} {chain : List Place} {origin base : String} {n : Nat} {raw : List Char}
  {rest : List (List Char)} {pending : Option Pending} {store grown : Store} {text : List Char}

theorem addLines_blank (line : TemplateLine.read raw = .blank) :
    addLines fs chain origin base n (raw :: rest) pending store =
      addLines fs chain origin base (n + 1) rest pending store := by
  rw [addLines, line]

theorem addLines_rule (line : TemplateLine.read raw = .rule text) :
    addLines fs chain origin base n (raw :: rest) pending store = .ok grown ↔
      ∃ p r, pending = some p ∧ Rule.readFor p.declaration.kind (.ofList text) = .ok r ∧
        addLines fs chain origin base (n + 1) rest (some (p.addRule r)) store = .ok grown := by
  rw [addLines, line]
  cases pending with
  | none => simp
  | some p => cases reads : Rule.readFor p.declaration.kind (.ofList text) <;> simp [reads]

theorem addLines_inclusion {target : List Char} (line : TemplateLine.read raw = .inclusion target) :
    addLines fs chain origin base n (raw :: rest) pending store = .ok grown ↔
      ∃ settled included, Pending.settle origin store pending = .ok settled ∧
        target.isEmpty = false ∧
        addFile fs chain (Path.join base (.ofList target)) settled = .ok included ∧
        addLines fs chain origin base (n + 1) rest none included = .ok grown := by
  rw [addLines, line]
  cases Pending.settle origin store pending with
  | error e => simp
  | ok settled =>
    cases named : target.isEmpty with
    | true => simp [named]
    | false =>
      cases added : addFile fs chain (Path.join base (.ofList target)) settled <;>
        simp [named, added]

theorem addLines_declaration (line : TemplateLine.read raw = .declaration text) :
    addLines fs chain origin base n (raw :: rest) pending store = .ok grown ↔
      ∃ settled d, Pending.settle origin store pending = .ok settled ∧
        Declaration.read text = .ok d ∧
        addLines fs chain origin base (n + 1) rest (some ⟨d, n⟩) settled = .ok grown := by
  rw [addLines, line]
  cases Pending.settle origin store pending with
  | error e => simp
  | ok settled => cases reads : Declaration.read text <;> simp [reads]

theorem addLines_unknown (line : TemplateLine.read raw = .unknown text) :
    addLines fs chain origin base n (raw :: rest) pending store ≠ .ok grown := by
  rw [addLines, line]
  cases Pending.settle origin store pending <;> simp

end

/-! ## All lines -/

mutual

theorem addFile_declares {fs : Files} {chain : List Place} {path : String} {store grown : Store}
    (h : addFile fs chain path store = .ok grown) : store.Declares grown := by
  rw [addFile] at h
  split at h
  · cases h
  · next place _ =>
    split at h
    · cases h
    · split at h
      · cases h
      · exact addLines_declares (fun _ => Text.feedless_of_mem_lines) (by simp) h
termination_by (unvisited (places fs) chain, 0)
decreasing_by
  exact Prod.Lex.left _ _ (unvisited_cons_lt (mem_places_of_textAt ‹_›) ‹_›)

theorem addLines_declares {fs : Files} {chain : List Place} {origin base : String} {n : Nat}
    {raws : List (List Char)} {pending : Option Pending} {store grown : Store}
    (feedless : ∀ raw ∈ raws, '\n' ∉ raw)
    (written : ∀ p, pending = some p → p.declaration.Written)
    (h : addLines fs chain origin base n raws pending store = .ok grown) :
    store.Declares grown := by
  match raws, h with
  | [], h =>
    rw [addLines] at h
    exact Pending.settle_declares written h
  | raw :: rest, h =>
    have others : ∀ raw ∈ rest, '\n' ∉ raw := fun raw hr => feedless raw (List.mem_cons_of_mem _ hr)
    have here : '\n' ∉ (TemplateLine.read raw).text := fun there =>
      feedless raw List.mem_cons_self (TemplateLine.text_read_subset raw there)
    cases line : TemplateLine.read raw with
    | blank =>
      rw [addLines_blank line] at h
      exact addLines_declares others written h
    | rule text =>
      obtain ⟨p, r, rfl, reads, h⟩ := (addLines_rule line).mp h
      apply addLines_declares others _ h
      intro q hq
      cases hq
      rw [line] at here
      refine Pending.written_addRule (written p rfl) ?_ reads
      rwa [String.toList_ofList]
    | inclusion target =>
      obtain ⟨settled, included, settles, -, adds, h⟩ := (addLines_inclusion line).mp h
      exact (Pending.settle_declares written settles).trans
        ((addFile_declares adds).trans (addLines_declares others (by simp) h))
    | declaration text =>
      obtain ⟨settled, d, settles, reads, h⟩ := (addLines_declaration line).mp h
      refine (Pending.settle_declares written settles).trans (addLines_declares others ?_ h)
      intro q hq
      cases hq
      rw [line] at here
      exact Declaration.written_of_read here reads
    | unknown text => exact absurd h (addLines_unknown line)
termination_by (unvisited (places fs) chain, raws.length + 1)
decreasing_by
  all_goals exact Prod.Lex.right _ (by simp)

end

theorem read_declares {fs : Files} {text : String} {s : Store} (h : read fs text = .ok s) :
    (∅ : Store).Declares s :=
  addLines_declares (fun _ => Text.feedless_of_mem_lines) (by simp) h

end Template

/-! ## What declaring checks and does -/

theorem Definition.refusal?_eq_none {d : Definition} {v : Variation} :
    d.refusal? v = none ↔
      (∀ name, v.name = some name → name ∉ reservedVariations) ∧
      (∀ count, v.count = some count → d.kind = .intent) ∧
      v.rules ≠ [] ∧ d.variation? v.name = none := by
  unfold refusal?
  cases hn : v.name.filter reservedVariations.contains with
  | some name =>
    obtain ⟨given, reserved⟩ := Option.filter_eq_some_iff.mp hn
    simp only [reduceCtorEq, false_iff, not_and]
    intro free
    exact absurd (List.contains_iff_mem.mp reserved) (free name given)
  | none =>
    have free : ∀ name, v.name = some name → name ∉ reservedVariations := by
      intro name given reserved
      exact Option.filter_eq_none_iff.mp hn name given (List.contains_iff_mem.mpr reserved)
    cases hc : v.count.filter fun _ => d.kind ≠ .intent with
    | some count =>
      obtain ⟨asked, other⟩ := Option.filter_eq_some_iff.mp hc
      simp only [reduceCtorEq, false_iff, not_and]
      intro _ intents
      exact absurd (intents count asked) (of_decide_eq_true other)
    | none =>
      have intents : ∀ count, v.count = some count → d.kind = .intent := by
        intro count asked
        simpa using Option.filter_eq_none_iff.mp hc count asked
      simp only [List.isEmpty_iff]
      split
      · simp_all
      · split
        · next there => simp [Option.ne_none_iff_isSome.mpr there]
        · next absent =>
          have none := Option.not_isSome_iff_eq_none.mp absent
          simp_all

namespace Store

theorem find?_put (s : Store) (kind other : Kind) (name name' : String) (d : Definition) :
    (s.put kind name d).find? other name' =
      if other = kind ∧ name' = name then some d else s.find? other name' := by
  simp only [find?, table_put]
  by_cases hk : other = kind
  · simp [hk, Table.find?_insert]
  · simp [hk]

/-- The definition that a declaration adds to: the one that is there, or one without variations. -/
def grows (s : Store) (decl : Declaration) : Definition :=
  (s.find? decl.kind decl.name).getD (.start decl.kind decl.name)

theorem declare_eq_ok {s grown : Store} {decl : Declaration} :
    s.declare decl = .ok grown ↔
      (s.grows decl).refusal? decl.variation = none ∧
      grown = s.put decl.kind decl.name { s.grows decl with
        casing := (s.grows decl).casing || decl.casing
        variations := (s.grows decl).variations ++ [decl.variation] } := by
  change (s.grows decl).add decl.variation >>= _ = _ ↔ _
  rw [bind_eq_ok]
  unfold Definition.add
  split
  · next e refused => simp [refused]
  · next free =>
    simp only [Except.ok.injEq, exists_eq_left', free, true_and]
    constructor
    · intro h
      exact (Except.ok.inj h).symm
    · rintro rfl
      rfl

end Store

/-! ## Every definition of a template can be drawn from -/

def Definition.Furnished (d : Definition) : Prop :=
  d.variations ≠ [] ∧ ∀ v ∈ d.variations, v.rules ≠ []

theorem Definition.Furnished.rulesOf {d : Definition} (h : d.Furnished) {variation : Option String}
    {rules : List Rule} (meant : d.rulesOf variation = .ok rules) : rules ≠ [] := by
  cases variation with
  | none =>
    cases meant
    obtain ⟨v, hv⟩ := List.exists_mem_of_ne_nil _ h.1
    obtain ⟨r, hr⟩ := List.exists_mem_of_ne_nil _ (h.2 v hv)
    exact List.ne_nil_of_mem (List.mem_flatMap.mpr ⟨v, hv, hr⟩)
  | some name =>
    simp only [Definition.rulesOf] at meant
    split at meant
    · next v found =>
      cases meant
      exact h.2 v (List.mem_of_find?_eq_some found)
    · cases meant

def Store.Furnished (s : Store) : Prop :=
  ∀ kind name d, s.find? kind name = some d → d.Furnished

theorem Store.furnished_declare {s grown : Store} {decl : Declaration} (h : s.Furnished)
    (declared : s.declare decl = .ok grown) : grown.Furnished := by
  obtain ⟨free, rfl⟩ := declare_eq_ok.mp declared
  obtain ⟨_, _, rules, _⟩ := Definition.refusal?_eq_none.mp free
  intro kind name d found
  rw [find?_put] at found
  split at found
  · cases found
    refine ⟨by simp, ?_⟩
    intro v hv
    rcases List.mem_append.mp hv with old | new
    · cases there : s.find? decl.kind decl.name with
      | none =>
        rw [grows, there] at old
        cases old
      | some before =>
        rw [grows, there] at old
        exact (h _ _ _ there).2 v old
    · cases List.mem_singleton.mp new
      exact rules
  · exact h kind name d found

theorem Template.read_furnished {fs : Files} {text : String} {s : Store}
    (h : read fs text = .ok s) : s.Furnished := by
  refine (read_declares h).keeps ?_ ?_
  · intro s d grown _ declared furnished
    exact Store.furnished_declare furnished declared
  · intro kind name d found
    cases kind <;> cases found

end Phrasebook
