import Mathlib.Data.List.Forall2
import Phrasebook.Proofs.Declared
import Phrasebook.Proofs.Lines

/-!
# Templates of one file

A text that includes nothing is read in two steps: its lines make declarations, and these are
declared one after the other.

* `Template.Makes`: the declarations that lines make, and `addLines_eq_ok`: the two steps;
* `makes_declarations`: lines that are heads with rules below them make one declaration each;
* `Store.foldlM_declare_of_put`, `Store.foldlM_declare_eq_put`: when declarations make a store with
  a single definition, and which one;
* `read_single`: the template of a head and one rule.
-/

namespace Phrasebook

/-- The declaration with more rules below it. -/
def Declaration.extend (d : Declaration) (rules : List Rule) : Declaration :=
  { d with variation := { d.variation with rules := d.variation.rules ++ rules } }

theorem Declaration.extend_nil (d : Declaration) : d.extend [] = d := by
  simp [extend]

theorem Declaration.extend_extend (d : Declaration) (first others : List Rule) :
    (d.extend first).extend others = d.extend (first ++ others) := by
  simp [extend, List.append_assoc]

/-- Texts that are read as these rules, one by one. -/
abbrev Rule.Listed (kind : Kind) : List (List Char) → List Rule → Prop :=
  List.Forall₂ fun text r => readFor kind (.ofList text) = .ok r

/-- A declaration from its head and the texts of its rules. -/
def Declaration.MadeOf (head : List Char) (texts : List (List Char)) (d : Declaration) : Prop :=
  ∃ start rules, read head = .ok start ∧ Rule.Listed start.kind texts rules ∧ d = start.extend rules

namespace Template

open TemplateLine

/-- Lines, none of which is blank, make these declarations, the one that is pending among them. -/
inductive Makes : List TemplateLine → Option Declaration → List Declaration → Prop
  | done {pending} : Makes [] pending pending.toList
  | rule {text rest d r made} (reads : Rule.readFor d.kind (.ofList text) = .ok r)
      (later : Makes rest (some (d.extend [r])) made) : Makes (.rule text :: rest) (some d) made
  | declaration {text rest pending d made} (reads : Declaration.read text = .ok d)
      (later : Makes rest (some d) made) :
      Makes (.declaration text :: rest) pending (pending.toList ++ made)

section
variable {rest : List TemplateLine} {text : List Char} {pending : Option Declaration}
  {d : Declaration} {made : List Declaration}

theorem makes_nil : Makes [] pending made ↔ made = pending.toList := by
  constructor
  · rintro ⟨⟩
    rfl
  · rintro rfl
    exact .done

theorem makes_rule : Makes (.rule text :: rest) (some d) made ↔
    ∃ r, Rule.readFor d.kind (.ofList text) = .ok r ∧ Makes rest (some (d.extend [r])) made := by
  constructor
  · intro h
    cases h with
    | rule reads later => exact ⟨_, reads, later⟩
  · rintro ⟨r, reads, later⟩
    exact .rule reads later

theorem makes_declaration : Makes (.declaration text :: rest) pending made ↔
    ∃ d later, Declaration.read text = .ok d ∧ Makes rest (some d) later ∧
      made = pending.toList ++ later := by
  constructor
  · intro h
    cases h with
    | declaration reads later => exact ⟨_, _, reads, later, rfl⟩
  · rintro ⟨d, later, reads, made, rfl⟩
    exact .declaration reads made

theorem makes_rules {texts : List (List Char)} :
    Makes (texts.map .rule ++ rest) (some d) made ↔
      ∃ rules, Rule.Listed d.kind texts rules ∧ Makes rest (some (d.extend rules)) made := by
  induction texts generalizing d with
  | nil =>
    constructor
    · intro later
      exact ⟨[], .nil, by rwa [Declaration.extend_nil]⟩
    · rintro ⟨_, ⟨⟩, later⟩
      rwa [Declaration.extend_nil] at later
  | cons text texts ih =>
    rw [List.map_cons, List.cons_append, makes_rule]
    constructor
    · rintro ⟨r, reads, later⟩
      obtain ⟨rules, listed, later⟩ := ih.mp later
      rw [Declaration.extend_extend] at later
      exact ⟨r :: rules, .cons reads listed, later⟩
    · rintro ⟨_, ⟨⟩, later⟩
      next r rules reads listed =>
        exact ⟨r, reads, ih.mpr ⟨rules, listed, by rwa [Declaration.extend_extend]⟩⟩

/-- Each head makes one declaration, with the rules between it and the next head. -/
theorem makes_declarations {parts : List (List Char × List (List Char))} :
    Makes (parts.flatMap fun p => .declaration p.1 :: p.2.map .rule) pending made ↔
      ∃ later, List.Forall₂ (fun p d => Declaration.MadeOf p.1 p.2 d) parts later ∧
        made = pending.toList ++ later := by
  induction parts generalizing pending made with
  | nil =>
    rw [List.flatMap_nil, makes_nil]
    constructor
    · rintro rfl
      exact ⟨[], .nil, (List.append_nil _).symm⟩
    · rintro ⟨_, ⟨⟩, rfl⟩
      exact List.append_nil _
  | cons p parts ih =>
    rw [List.flatMap_cons, List.cons_append, makes_declaration]
    constructor
    · rintro ⟨start, later, reads, makes, rfl⟩
      obtain ⟨rules, listed, makes⟩ := makes_rules.mp makes
      obtain ⟨others, each, rfl⟩ := ih.mp makes
      exact ⟨_, .cons ⟨start, rules, reads, listed, rfl⟩ each, rfl⟩
    · rintro ⟨_, ⟨⟩, rfl⟩
      next d others first each =>
        obtain ⟨start, rules, reads, listed, rfl⟩ := first
        refine ⟨start, start.extend rules :: others, reads, ?_, rfl⟩
        refine makes_rules.mpr ⟨rules, listed, ?_⟩
        exact ih.mpr ⟨others, each, rfl⟩

end

/-! ## The two steps -/

variable {fs : Files} {chain : List Place} {origin base : String} {grown : Store}

theorem settle_eq_ok {store : Store} {pending : Option Pending} :
    Pending.settle origin store pending = .ok grown ↔
      (pending.map (·.declaration)).toList.foldlM Store.declare store = .ok grown := by
  cases pending with
  | none => rfl
  | some p =>
    rw [Pending.settle, mapError_eq_ok]
    simp

/-- A text without includes is read by declaring what its lines make. -/
theorem addLines_eq_ok {raws : List (List Char)} (alone : ∀ target, .inclusion target ∉ seen raws)
    (n : Nat) (pending : Option Pending) (store : Store) :
    addLines fs chain origin base n raws pending store = .ok grown ↔
      ∃ made, Makes (seen raws) (pending.map (·.declaration)) made ∧
        made.foldlM Store.declare store = .ok grown := by
  induction raws generalizing n pending store with
  | nil =>
    rw [addLines, settle_eq_ok]
    constructor
    · intro h
      exact ⟨_, .done, h⟩
    · rintro ⟨made, makes, h⟩
      rwa [makes_nil.mp makes] at h
  | cons raw rest ih =>
    have alone' : ∀ target, .inclusion target ∉ seen rest := fun target there =>
      alone target (by rw [seen_cons]; exact List.mem_append_right _ there)
    cases line : TemplateLine.read raw with
    | blank =>
      rw [addLines_blank line, seen_cons, seen_blank line]
      exact ih alone' (n + 1) pending store
    | rule text =>
      rw [addLines_rule line, seen_visible line nofun]
      constructor
      · rintro ⟨p, r, rfl, reads, h⟩
        obtain ⟨made, makes, declared⟩ := (ih alone' (n + 1) _ store).mp h
        exact ⟨made, .rule reads makes, declared⟩
      · rintro ⟨made, makes, declared⟩
        cases pending with
        | none => cases makes
        | some p =>
          obtain ⟨r, reads, makes⟩ := makes_rule.mp makes
          exact ⟨p, r, rfl, reads, (ih alone' (n + 1) _ store).mpr ⟨made, makes, declared⟩⟩
    | inclusion target =>
      have here := seen_visible line nofun rest
      exact absurd (here ▸ List.mem_cons_self) (alone target)
    | declaration text =>
      rw [addLines_declaration line, seen_visible line nofun]
      constructor
      · rintro ⟨settled, d, settles, reads, h⟩
        obtain ⟨later, makes, declared⟩ := (ih alone' (n + 1) _ settled).mp h
        refine ⟨_, .declaration reads makes, ?_⟩
        rw [List.foldlM_append, settle_eq_ok.mp settles]
        exact declared
      · rintro ⟨_, makes, declared⟩
        obtain ⟨d, later, reads, behind, rfl⟩ := makes_declaration.mp makes
        rw [List.foldlM_append] at declared
        obtain ⟨settled, first, others⟩ := bind_eq_ok.mp declared
        refine ⟨settled, d, settle_eq_ok.mpr first, reads, ?_⟩
        exact (ih alone' (n + 1) _ settled).mpr ⟨later, behind, others⟩
    | unknown text =>
      rw [seen_visible line nofun]
      constructor
      · exact fun h => absurd h (addLines_unknown line)
      · rintro ⟨made, makes, _⟩
        cases makes

theorem read_eq_ok {text : String}
    (alone : ∀ target, .inclusion target ∉ seen (Text.lines text.toList)) :
    read fs text = .ok grown ↔
      ∃ made, Makes (seen (Text.lines text.toList)) none made ∧
        made.foldlM Store.declare ∅ = .ok grown :=
  addLines_eq_ok alone 1 none ∅

end Template

/-! ## Declaring one definition -/

namespace Definition

/-- The definition with more declared of it. -/
def joined (d : Definition) (made : List Declaration) : Definition :=
  { d with
    casing := d.casing || made.any (·.casing)
    variations := d.variations ++ made.map (·.variation) }

theorem joined_cons (d : Definition) (decl : Declaration) (made : List Declaration) :
    d.joined (decl :: made) = (d.joined [decl]).joined made := by
  simp [joined, Bool.or_assoc]

/-- None of the variations is refused where they are added one after the other. -/
def Accepts : Definition → List Declaration → Prop
  | _, [] => True
  | d, decl :: made => d.refusal? decl.variation = none ∧ (d.joined [decl]).Accepts made

theorem accepts_of_distinct {made : List Declaration} {d : Definition}
    (distinct : ((d.joined made).variations.map Variation.name).Nodup)
    (free : ∀ decl ∈ made, ∀ name, decl.variation.name = some name → name ∉ reservedVariations)
    (counted : ∀ decl ∈ made, ∀ n, decl.variation.count = some n → d.kind = .intent)
    (nonempty : ∀ decl ∈ made, decl.variation.rules ≠ []) : d.Accepts made := by
  induction made generalizing d with
  | nil => trivial
  | cons decl made ih =>
    have later : ∀ {decl'}, decl' ∈ made → decl' ∈ decl :: made := List.mem_cons_of_mem _
    constructor
    · refine refusal?_eq_none.mpr ⟨free decl List.mem_cons_self, counted decl List.mem_cons_self,
        nonempty decl List.mem_cons_self, List.find?_eq_none.mpr fun v hv => ?_⟩
      rw [joined, List.map_append, List.nodup_append] at distinct
      have other := distinct.2.2 v.name (List.mem_map_of_mem hv) decl.variation.name (by simp)
      simpa using other
    · refine ih ?_ (fun _ h => free _ (later h)) (fun _ h => counted _ (later h))
        (fun _ h => nonempty _ (later h))
      rwa [← joined_cons]

end Definition

namespace Store

theorem put_put (s : Store) (kind : Kind) (name : String) (d d' : Definition) :
    (s.put kind name d).put kind name d' = s.put kind name d' := by
  ext kind' name'
  simp only [table_put]
  split
  · simp only [Table.find?_insert]
    split <;> rfl
  · rfl

section
variable {s grown : Store} {kind : Kind} {name : String} {d : Definition} {made : List Declaration}

theorem foldlM_declare_of_put (same : ∀ decl ∈ made, decl.kind = kind ∧ decl.name = name) :
    made.foldlM declare (s.put kind name d) = .ok grown ↔
      d.Accepts made ∧ grown = s.put kind name (d.joined made) := by
  induction made generalizing d with
  | nil =>
    have whole : d.joined [] = d := by simp [Definition.joined]
    simp [Definition.Accepts, whole, pure, Except.pure, eq_comm]
  | cons decl made ih =>
    obtain ⟨rfl, rfl⟩ := same decl List.mem_cons_self
    have known : (s.put decl.kind decl.name d).grows decl = d := by
      rw [grows, find?_put, if_pos ⟨rfl, rfl⟩, Option.getD_some]
    have step : ∀ next, (s.put decl.kind decl.name d).declare decl = .ok next ↔
        d.refusal? decl.variation = none ∧ next = s.put decl.kind decl.name (d.joined [decl]) := by
      intro next
      rw [declare_eq_ok, known, put_put]
      simp [Definition.joined]
    have others := fun other there => same other (List.mem_cons_of_mem decl there)
    rw [List.foldlM_cons, bind_eq_ok, Definition.joined_cons]
    simp only [step, Definition.Accepts, and_assoc, exists_and_left, exists_eq_left, ih others]

/-- What is declared stays declared. -/
theorem isSome_of_declare {decl : Declaration} (h : s.declare decl = .ok grown) (kind : Kind)
    (name : String) : (grown.find? kind name).isSome =
      (decide (kind = decl.kind ∧ name = decl.name) || (s.find? kind name).isSome) := by
  obtain ⟨_, rfl⟩ := declare_eq_ok.mp h
  rw [find?_put]
  by_cases here : kind = decl.kind ∧ name = decl.name
  · simp [here]
  · simp [here]

theorem isSome_of_foldlM (h : made.foldlM declare s = .ok grown) :
    (∀ kind name, (s.find? kind name).isSome = true → (grown.find? kind name).isSome = true) ∧
      ∀ decl ∈ made, (grown.find? decl.kind decl.name).isSome = true := by
  induction made generalizing s with
  | nil =>
    cases h
    exact ⟨fun _ _ => id, nofun⟩
  | cons decl made ih =>
    rw [List.foldlM_cons] at h
    obtain ⟨next, first, later⟩ := bind_eq_ok.mp h
    obtain ⟨kept, others⟩ := ih later
    have here := isSome_of_declare first
    refine ⟨fun kind name there => kept _ _ (by simp [here, there]), fun other there => ?_⟩
    rcases List.mem_cons.mp there with rfl | there
    · exact kept _ _ (by simp [here])
    · exact others other there

theorem find?_empty (kind : Kind) (name : String) : (∅ : Store).find? kind name = none := by
  cases kind <;> rfl

theorem foldlM_declare_empty {decl : Declaration}
    (same : ∀ other ∈ decl :: made, other.kind = kind ∧ other.name = name) :
    (decl :: made).foldlM declare ∅ = .ok grown ↔
      (Definition.start kind name).Accepts (decl :: made) ∧
        grown = (∅ : Store).put kind name ((Definition.start kind name).joined (decl :: made)) := by
  obtain ⟨rfl, rfl⟩ := same decl List.mem_cons_self
  have known : (∅ : Store).grows decl = .start decl.kind decl.name := by
    rw [grows, find?_empty, Option.getD_none]
  have step : ∀ next, (∅ : Store).declare decl = .ok next ↔
      (Definition.start decl.kind decl.name).refusal? decl.variation = none ∧
        next = (∅ : Store).put decl.kind decl.name
          ((Definition.start decl.kind decl.name).joined [decl]) := by
    intro next
    rw [declare_eq_ok, known]
    simp [Definition.joined]
  have others := fun other there => same other (List.mem_cons_of_mem decl there)
  rw [List.foldlM_cons, bind_eq_ok, Definition.joined_cons]
  simp only [step, Definition.Accepts, and_assoc, exists_and_left, exists_eq_left,
    foldlM_declare_of_put others]

/-- Declarations make a store with a single definition when all are of its name, and none of them is
refused. The definition is then made of all of them. -/
theorem foldlM_declare_eq_put : made.foldlM declare ∅ = .ok ((∅ : Store).put kind name d) ↔
    made ≠ [] ∧ (∀ decl ∈ made, decl.kind = kind ∧ decl.name = name) ∧
      (Definition.start kind name).Accepts made ∧ d = (Definition.start kind name).joined made := by
  have single : ∀ d' kind' name', ((∅ : Store).put kind name d').find? kind' name' =
      if kind' = kind ∧ name' = name then some d' else none := by
    intro d' kind' name'
    rw [find?_put, find?_empty]
  cases made with
  | nil =>
    simp only [List.foldlM_nil, ne_eq, not_true, false_and, iff_false]
    intro h
    have found := single d kind name
    rw [← Except.ok.inj h, find?_empty] at found
    simp at found
  | cons decl made =>
    constructor
    · intro h
      have same : ∀ other ∈ decl :: made, other.kind = kind ∧ other.name = name := by
        intro other there
        have found := (isSome_of_foldlM h).2 other there
        rw [single] at found
        split at found
        · assumption
        · cases found
      obtain ⟨accepts, whole⟩ := (foldlM_declare_empty same).mp h
      have found := congrArg (fun s => s.find? kind name) whole
      simp only [single, and_self, if_true, Option.some.injEq] at found
      exact ⟨List.cons_ne_nil _ _, same, accepts, found⟩
    · rintro ⟨_, same, accepts, rfl⟩
      exact (foldlM_declare_empty same).mpr ⟨accepts, rfl⟩

end
end Store

/-- A head and one rule below it are declared in an empty store. -/
theorem Template.read_single {fs : Files} {text : String} {head rule : List Char} {grown : Store}
    (rows : TemplateLine.seen (Text.lines text.toList) = [.declaration head, .rule rule]) :
    read fs text = .ok grown ↔ ∃ d r, Declaration.read head = .ok d ∧
      Rule.readFor d.kind (.ofList rule) = .ok r ∧
      (Definition.start d.kind d.name).refusal? { d.variation with rules := [r] } = none ∧
      grown = (∅ : Store).put d.kind d.name
        ⟨d.name, d.kind, d.casing, [{ d.variation with rules := [r] }]⟩ := by
  have alone : ∀ target, .inclusion target ∉ TemplateLine.seen (Text.lines text.toList) := by
    rw [rows]
    simp
  have declares {d : Declaration} {r : Rule} (reads : Declaration.read head = .ok d) :
      [d.extend [r]].foldlM Store.declare ∅ = .ok grown ↔
        (Definition.start d.kind d.name).refusal? { d.variation with rules := [r] } = none ∧
          grown = (∅ : Store).put d.kind d.name
            ⟨d.name, d.kind, d.casing, [{ d.variation with rules := [r] }]⟩ := by
    have ruled : d.extend [r] = { d with variation := { d.variation with rules := [r] } } := by
      rw [Declaration.extend, Declaration.read_rules reads, List.nil_append]
    have same : ∀ other ∈ [d.extend [r]], other.kind = d.kind ∧ other.name = d.name := by
      simp [ruled]
    rw [Store.foldlM_declare_empty same, ruled]
    simp [Definition.Accepts, Definition.joined, Definition.start]
  rw [read_eq_ok alone, rows]
  constructor
  · rintro ⟨made, makes, declared⟩
    obtain ⟨d, later, reads, makes, rfl⟩ := makes_declaration.mp makes
    obtain ⟨r, ruled, makes⟩ := makes_rule.mp makes
    rw [makes_nil.mp makes] at declared
    exact ⟨d, r, reads, ruled, (declares reads).mp declared⟩
  · rintro ⟨d, r, reads, ruled, accepted⟩
    exact ⟨_, .declaration reads (.rule ruled .done), (declares reads).mpr accepted⟩

end Phrasebook
