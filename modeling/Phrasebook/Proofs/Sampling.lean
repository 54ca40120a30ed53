import Mathlib
import Phrasebook.Proofs.Decision
import Phrasebook.Proofs.Listed
import Phrasebook.Proofs.Supply
import Phrasebook.Template

/-!
# What is listed is what a plain run gives

A plain run takes every piece that does not stand at zero percent, and recases nothing. Where no
named group is mixed, a decision that such a run makes for one piece of a group is right for all of
them.

* `Store.Forced`: words can be found with which a computation goes a given way, from every state
  whose decisions are those of a plain run, and to such a state;
* `forced_of_listed`: every listed fragment can be forced;
* `answers_of_listed`: a plain run gives a listed fragment, if it does not come to a definition
  without rules;
* `listRule_runs`: both, for a rule from the start.

Mathlib is imported whole: the runs at the end are evaluated with equations from all over it.
-/

namespace Phrasebook.Store

def Happening.Plain : Happening → Prop
  | .reached _ p pass => p.isExcluded = false → (pass.includes p.modifiers).1 = true
  | .recased c => c = .asWritten

/-- A run that takes every piece of another percentage than zero, and recases nothing. -/
def Plain (s : Store) (trail : Trail) (pieces : List Piece) (pass : Pass) : Prop :=
  ∀ h, s.Happens trail pieces pass h → h.Plain

variable {s : Store} {r : Rule}

theorem AsListed.plain {trail : Trail} {pieces : List Piece} {pass : Pass}
    (h : s.AsListed trail pieces pass) : s.Plain trail pieces pass := by
  intro e happens
  have listed := h e happens
  cases e with
  | reached t p there =>
    intro included
    rw [show (there.includes p.modifiers).1 = !p.isExcluded from listed, included]
    rfl
  | recased c => exact listed

theorem Plain.asListed {w : Words} (unmixed : s.Unmixed r) (h : s.Plain [] r.pieces ⟨w, []⟩) :
    s.AsListed [] r.pieces ⟨w, []⟩ := by
  intro e happens
  have plain := h e happens
  cases e with
  | reached t p there =>
    show (there.includes p.modifiers).1 = !p.isExcluded
    cases excluded : p.isExcluded with
    | false => exact plain excluded
    | true => exact excluded_left unmixed happens excluded
  | recased c => exact plain

/-! ## Forcing a run -/

/-- Every decision is the one that a plain run makes. -/
def Settled (s : Store) (r : Rule) (decisions : List (String × Bool)) : Prop :=
  ∀ group b, group ≠ "" → decisions.lookup group = some b →
    ∀ m ∈ s.modifiersFor r, m.group = some group → b = (m.inclusion != some 0)

/-- From settled decisions there are words with which the computation goes this way, and which leave
settled decisions behind. -/
def Forced (s : Store) (r : Rule) (way : Pass → Pass → Prop) : Prop :=
  ∀ before, s.Settled r before → ∃ words after, s.Settled r after ∧
    ∀ w : Words, w.Supplies words → way ⟨w, before⟩ ⟨w.skip words.length, after⟩

theorem settled_start : s.Settled r [] := by
  intro group b _ decided
  cases decided

theorem Forced.mono {way way' : Pass → Pass → Prop} (h : s.Forced r way)
    (leads : ∀ pass last, way pass last → way' pass last) : s.Forced r way' := by
  intro before settled
  obtain ⟨words, after, settled', runs⟩ := h before settled
  exact ⟨words, after, settled', fun w supplied => leads _ _ (runs w supplied)⟩

/-- The words of the first part followed by those of the second. -/
theorem Forced.followed {way way' : Pass → Pass → Prop} (h : s.Forced r way)
    (h' : s.Forced r way') :
    s.Forced r fun pass last => ∃ mid, way pass mid ∧ way' mid last := by
  intro before settled
  obtain ⟨first, between, settled, runs⟩ := h before settled
  obtain ⟨others, after, settled, runs'⟩ := h' between settled
  refine ⟨first ++ others, after, settled, fun w supplied => ?_⟩
  obtain ⟨supplied, supplied'⟩ := (w.supplies_append first others).mp supplied
  have last := runs' _ supplied'
  rw [Words.skip_skip, ← List.length_append] at last
  exact ⟨_, runs w supplied, last⟩

theorem forced_nothing : s.Forced r Eq :=
  fun before settled => ⟨[], before, settled, fun _ _ => rfl⟩

theorem Settled.decided (unmixed : s.Unmixed r) {before : List (String × Bool)}
    (settled : s.Settled r before) {m : Modifiers} (hm : m ∈ s.modifiersFor r) {own : String}
    (named : m.group = some own) :
    s.Settled r ((own, m.inclusion != some 0) :: before) := by
  intro group b nonempty decided m' hm' named'
  rw [List.lookup_cons] at decided
  split at decided
  · next same =>
    obtain rfl : group = own := by simpa using same
    obtain rfl := Option.some.inj decided
    have alike : m.inclusion = some 0 ↔ m'.inclusion = some 0 :=
      ⟨unmixed m hm m' hm' group nonempty named named',
        unmixed m' hm' m hm group nonempty named' named⟩
    rw [Bool.eq_iff_iff]
    simpa using not_congr alike
  · exact settled group b nonempty decided m' hm' named'

theorem forced_includes (unmixed : s.Unmixed r) {m : Modifiers} (hm : m ∈ s.modifiersFor r) :
    s.Forced r fun pass last => pass.includes m = (m.inclusion != some 0, last) := by
  cases named : m.group with
  | none =>
    refine forced_nothing.mono fun pass last same => ?_
    simp [Pass.includes, Modifiers.inclusion, named, same]
  | some own =>
    intro before settled
    have inclusion : m.inclusion = some (m.percent.getD Modifiers.defaultPercent) := by
      simp [Modifiers.inclusion, named]
    obtain ⟨words, drawn⟩ := Words.chance_supplied (m.percent.getD Modifiers.defaultPercent)
    by_cases unnamed : own = ""
    · refine ⟨words, before, settled, fun w supplied => ?_⟩
      simp [Pass.includes, named, unnamed, Pass.decide, Pass.draw, drawn w supplied, inclusion, bne]
    · cases decided : before.lookup own with
      | some b =>
        have right := settled own b unnamed decided m hm named
        refine ⟨[], before, settled, fun w _ => ?_⟩
        simp [Pass.includes, named, unnamed, Pass.decide, decided, right, Words.skip_zero]
      | none =>
        refine ⟨words, _, settled.decided unmixed hm named, fun w supplied => ?_⟩
        simp [Pass.includes, named, unnamed, Pass.decide, decided, Pass.draw, drawn w supplied,
          inclusion, bne]

theorem forced_choose {rules : List Rule} (small : rules.length < Words.span) {rule : Rule}
    (known : rule ∈ rules) :
    s.Forced r fun pass last => pass.choose rules = (some rule, last) := by
  intro before settled
  obtain ⟨words, drawn⟩ := Words.choose_supplied small known
  refine ⟨words, before, settled, fun w supplied => ?_⟩
  simp only [Pass.choose, drawn w supplied]

theorem forced_casing (random : Bool) :
    s.Forced r fun pass last => pass.casing random = (.asWritten, last) := by
  cases random with
  | false => exact forced_nothing.mono fun pass last same => same ▸ rfl
  | true =>
    intro before settled
    obtain ⟨words, drawn⟩ := Words.asWritten_supplied
    refine ⟨words, before, settled, fun w supplied => ?_⟩
    simp only [Pass.casing, if_pos, drawn w supplied]

theorem length_rulesOf_le {d : Definition} {variation : Option String} {rules : List Rule}
    (h : d.rulesOf variation = .ok rules) : rules.length ≤ d.allRules.length := by
  cases variation with
  | none =>
    cases h
    exact Nat.le_refl _
  | some name =>
    simp only [Definition.rulesOf] at h
    split at h
    · next v found =>
      cases h
      have known := List.mem_map_of_mem (f := (·.rules)) (List.mem_of_find?_eq_some found)
      rw [Definition.allRules, List.flatMap_def]
      exact (List.sublist_flatten_of_mem known).length_le
    · cases h

/-- The way of a run that goes as listing has it and gives the fragment. -/
def Gives (s : Store) (trail : Trail) (pieces : List Piece) (f : Fragment) (pass last : Pass) :
    Prop :=
  s.expandPieces trail pieces pass = (.ok f, last) ∧ s.AsListed trail pieces pass

/-- The same for a single piece. -/
def GivesOne (s : Store) (trail : Trail) (p : Piece) (f : Fragment) (pass last : Pass) : Prop :=
  s.expandPiece trail p pass = (.ok f, last) ∧ s.AsListed trail [p] pass

section
variable {trail longer : Trail} {kind : Kind} {name : String} {m : Modifiers}
  {pass next chosen mid last : Pass} {f g : Fragment}

theorem givesOne_left {p : Piece} (excluded : p.isExcluded = true)
    (left : pass.includes p.modifiers = (false, last)) : s.GivesOne trail p {} pass last := by
  have decided : (pass.includes p.modifiers).1 = !p.isExcluded := by
    rw [left, excluded]
    rfl
  cases p with
  | word text => cases excluded
  | group pieces value m =>
    refine ⟨expandPiece_group_left left, asListed_group.mpr ⟨decided, ?_⟩⟩
    intro next taken
    cases left.symm.trans taken
  | reference kind name m =>
    refine ⟨expandPiece_reference_left left, asListed_reference.mpr ⟨decided, ?_⟩⟩
    intro _ _ _ _ _ _ taken
    cases left.symm.trans taken

theorem givesOne_group {pieces : List Piece} {value : Option String}
    (included : (Piece.group pieces value m).isExcluded = false)
    (taken : pass.includes m = (true, next)) (body : s.Gives trail pieces f next mid)
    (cased : mid.casing m.casing = (.asWritten, last)) :
    s.GivesOne trail (.group pieces value m) f pass last := by
  constructor
  · rw [expandPiece_group taken body.1]
    simp only [cased, Fragment.recase_asWritten]
  · refine asListed_group.mpr ⟨?_, fun next' taken' => ?_⟩
    · rw [taken, included]
      rfl
    · obtain rfl : next = next' := by simpa [taken] using taken'
      refine ⟨body.2, fun f' mid' body' => ?_⟩
      obtain ⟨rfl, rfl⟩ : f = f' ∧ mid = mid' := by simpa [body.1] using body'
      rw [cased]

theorem givesOne_reference {d : Definition} {rules : List Rule} {rule : Rule}
    (included : (Piece.reference kind name m).isExcluded = false)
    (resolves : s.resolve ⟨kind, name, m.variation⟩ = .ok (d, rules))
    (steps : trail.step? ⟨kind, name, m.variation⟩ = some longer)
    (taken : pass.includes m = (true, next)) (draws : next.choose rules = (some rule, chosen))
    (body : s.Gives longer rule.pieces f chosen mid)
    (cased : mid.casing (m.casing || d.casing) = (.asWritten, last)) :
    s.GivesOne trail (.reference kind name m) (f.shown kind name rule.value .asWritten)
      pass last := by
  constructor
  · rw [expandPiece_reference taken resolves draws steps body.1]
    simp only [cased]
  · refine asListed_reference.mpr
      ⟨?_, fun next' d' rules' rule' chosen' longer' taken' resolves' draws' steps' => ?_⟩
    · rw [taken, included]
      rfl
    · obtain rfl : next = next' := by simpa [taken] using taken'
      obtain ⟨rfl, rfl⟩ : d = d' ∧ rules = rules' := by simpa [resolves] using resolves'
      obtain ⟨rfl, rfl⟩ : rule = rule' ∧ chosen = chosen' := by simpa [draws] using draws'
      obtain rfl : longer = longer' := by simpa [steps] using steps'
      refine ⟨body.2, fun f' mid' body' => ?_⟩
      obtain ⟨rfl, rfl⟩ : f = f' ∧ mid = mid' := by simpa [body.1] using body'
      rw [cased]

theorem gives_cons {p : Piece} {rest : List Piece} (first : s.GivesOne trail p f pass mid)
    (others : s.Gives trail rest g mid last) :
    s.Gives trail (p :: rest) (f.append g) pass last := by
  constructor
  · rw [expandPieces_cons first.1 others.1]
  · refine asListed_cons.mpr ⟨first.2, fun f' mid' first' => ?_⟩
    obtain ⟨rfl, rfl⟩ : f = f' ∧ mid = mid' := by simpa [first.1] using first'
    exact others.2

/-- What stands at zero percent can be left out. -/
theorem forced_excluded (unmixed : s.Unmixed r) {p : Piece}
    (known : ∀ m ∈ p.allModifiers, m ∈ s.modifiersFor r) (excluded : p.isExcluded = true)
    {l : List Fragment} (listed : s.listPiece trail p = .ok l) (hf : f ∈ l) :
    s.Forced r (s.GivesOne trail p f) := by
  rw [listPiece_excluded excluded] at listed
  obtain rfl := Except.ok.inj listed
  obtain rfl := List.mem_singleton.mp hf
  have decision := forced_includes unmixed (known _ (Piece.mem_allModifiers_of_isExcluded excluded))
  rw [Piece.isExcluded_iff.mp excluded] at decision
  refine decision.mono fun pass last left => ?_
  exact givesOne_left excluded left

end

theorem forced_of_listed (small : ∀ d ∈ s.all, d.allRules.length < Words.span)
    (unmixed : s.Unmixed r) (trail : Trail) :
    (∀ p, (∀ m ∈ p.allModifiers, m ∈ s.modifiersFor r) → ∀ l, s.listPiece trail p = .ok l →
      ∀ f ∈ l, s.Forced r (s.GivesOne trail p f)) ∧
    ∀ pieces, (∀ m ∈ Piece.allModifiersOf pieces, m ∈ s.modifiersFor r) →
      ∀ l, s.listPieces trail pieces = .ok l → ∀ f ∈ l, s.Forced r (s.Gives trail pieces f) := by
  refine walk_induction s
    (Q := fun trail p => (∀ m ∈ p.allModifiers, m ∈ s.modifiersFor r) →
      ∀ l, s.listPiece trail p = .ok l → ∀ f ∈ l, s.Forced r (s.GivesOne trail p f))
    (P := fun trail pieces => (∀ m ∈ Piece.allModifiersOf pieces, m ∈ s.modifiersFor r) →
      ∀ l, s.listPieces trail pieces = .ok l → ∀ f ∈ l, s.Forced r (s.Gives trail pieces f))
    ?word ?group ?reference ?nil ?cons trail
  case word =>
    intro trail text _ l listed f hf
    rw [listPiece_word] at listed
    obtain rfl := Except.ok.inj listed
    obtain rfl := List.mem_singleton.mp hf
    exact forced_nothing.mono fun pass last same =>
      ⟨same ▸ expandPiece_word text pass, asListed_word text⟩
  case group =>
    intro trail pieces value m ih hm l listed f hf
    cases excluded : (Piece.group pieces value m).isExcluded with
    | true => exact forced_excluded unmixed hm excluded listed hf
    | false =>
      have decision : s.Forced r fun pass last =>
          pass.includes m = (!(Piece.group pieces value m).isExcluded, last) :=
        forced_includes unmixed (hm m List.mem_cons_self)
      rw [excluded] at decision
      rw [listPiece_group excluded] at listed
      have body := ih (fun m h => hm m (List.mem_cons_of_mem _ h)) l listed f hf
      have whole := (decision.followed body).followed (forced_casing m.casing)
      refine whole.mono fun pass last => ?_
      rintro ⟨mid, ⟨next, taken, body⟩, cased⟩
      exact givesOne_group excluded taken body cased
  case reference =>
    intro trail kind name m ih hm l listed f hf
    cases excluded : (Piece.reference kind name m).isExcluded with
    | true => exact forced_excluded unmixed hm excluded listed hf
    | false =>
      have decision : s.Forced r fun pass last =>
          pass.includes m = (!(Piece.reference kind name m).isExcluded, last) :=
        forced_includes unmixed (hm m List.mem_cons_self)
      rw [excluded] at decision
      obtain ⟨d, rules, longer, resolves, steps, listed⟩ :=
        listPiece_reference_eq_ok excluded listed
      obtain ⟨rule, known, own, listed, g, hg, rfl⟩ := mem_listRules listed hf
      obtain ⟨found, meant⟩ := resolve_eq_ok.mp resolves
      have few := Nat.lt_of_le_of_lt (length_rulesOf_le meant) (small d (mem_all_of_find? found))
      have stored : ∀ m ∈ rule.allModifiers, m ∈ s.modifiersFor r := fun m h =>
        stored_mem_modifiersFor m (allModifiers_of_resolve resolves known h)
      have body := ih d rules longer resolves steps rule known stored own listed g hg
      have whole := ((decision.followed (forced_choose few known)).followed body).followed
        (forced_casing (m.casing || d.casing))
      refine whole.mono fun pass last => ?_
      rintro ⟨mid, ⟨chosen, ⟨next, taken, draws⟩, body⟩, cased⟩
      exact givesOne_reference excluded resolves steps taken draws body cased
  case nil =>
    intro trail _ l listed f hf
    rw [listPieces_nil] at listed
    obtain rfl := Except.ok.inj listed
    obtain rfl := List.mem_singleton.mp hf
    exact forced_nothing.mono fun pass last same =>
      ⟨same ▸ expandPieces_nil pass, asListed_nil⟩
  case cons =>
    intro trail p rest one others hm l whole f hf
    obtain ⟨first, later, listed, listed', rfl⟩ := listPieces_cons_eq_ok whole
    obtain ⟨g, hg, h, hh, rfl⟩ := mem_combine.mp hf
    have head := one (fun m h => hm m (List.mem_append_left _ h)) first listed g hg
    have tail := others (fun m h => hm m (List.mem_append_right _ h)) later listed' h hh
    -- the tail starts from the decisions that the words of the head leave behind
    refine (head.followed tail).mono fun pass last => ?_
    rintro ⟨mid, head, tail⟩
    exact gives_cons head tail

/-! ## The outcome of a run -/

/-- One of the fragments, or the failure to draw from a definition without rules. -/
inductive Answers (s : Store) (l : List Fragment) : Outcome Fragment → Prop
  | listed {f} (hf : f ∈ l) : Answers s l (.ok f)
  | ruleless {t d} (resolves : s.resolve t = .ok (d, [])) :
      Answers s l (.error (.withoutRules t.kind t.name))

theorem Answers.of_error {l l' : List Fragment} {e : Error} (h : s.Answers l (.error e)) :
    s.Answers l' (.error e) := by
  cases h with
  | ruleless resolves => exact .ruleless resolves

theorem Answers.mem {l : List Fragment} {f : Fragment} (h : s.Answers l (.ok f)) : f ∈ l := by
  cases h with
  | listed hf => exact hf

theorem AsListed.included {trail : Trail} {p : Piece} {pass next : Pass} {rest : List Piece}
    (h : s.AsListed trail (p :: rest) pass) (taken : pass.includes p.modifiers = (true, next)) :
    p.isExcluded = false := by
  have decided := h.first
  rw [taken] at decided
  simpa using decided

theorem AsListed.excluded {trail : Trail} {p : Piece} {pass next : Pass} {rest : List Piece}
    (h : s.AsListed trail (p :: rest) pass) (left : pass.includes p.modifiers = (false, next)) :
    p.isExcluded = true := by
  have decided := h.first
  rw [left] at decided
  simpa using decided

theorem answers_of_listed (trail : Trail) :
    (∀ p l, s.listPiece trail p = .ok l → ∀ pass, s.AsListed trail [p] pass →
      s.Answers l (s.expandPiece trail p pass).1) ∧
    ∀ pieces l, s.listPieces trail pieces = .ok l → ∀ pass, s.AsListed trail pieces pass →
      s.Answers l (s.expandPieces trail pieces pass).1 := by
  refine walk_induction s
    (Q := fun trail p => ∀ l, s.listPiece trail p = .ok l → ∀ pass, s.AsListed trail [p] pass →
      s.Answers l (s.expandPiece trail p pass).1)
    (P := fun trail pieces => ∀ l, s.listPieces trail pieces = .ok l →
      ∀ pass, s.AsListed trail pieces pass → s.Answers l (s.expandPieces trail pieces pass).1)
    ?word ?group ?reference ?nil ?cons trail
  case word =>
    intro trail text l listed pass _
    rw [listPiece_word] at listed
    obtain rfl := Except.ok.inj listed
    rw [expandPiece_word]
    exact .listed List.mem_cons_self
  case group =>
    intro trail pieces value m ih l listed pass run
    generalize result : s.expandPiece trail (.group pieces value m) pass = outcome
    have expanded := result ▸ expandPiece_expanded s trail (.group pieces value m) pass
    cases expanded with
    | groupLeft left =>
      rw [listPiece_excluded (run.excluded left)] at listed
      obtain rfl := Except.ok.inj listed
      exact .listed List.mem_cons_self
    | @groupFailed _ _ _ _ next _ _ taken body =>
      rw [listPiece_group (run.included taken)] at listed
      have inner := ih l listed next ((asListed_group.mp run).2 next taken).1
      rwa [body] at inner
    | @group _ _ _ _ next f last taken body =>
      rw [listPiece_group (run.included taken)] at listed
      obtain ⟨inside, cased⟩ := (asListed_group.mp run).2 next taken
      have inner := ih l listed next inside
      rw [body] at inner
      simp only [cased f last body, Fragment.recase_asWritten]
      exact inner
  case reference =>
    intro trail kind name m ih l listed pass run
    generalize result : s.expandPiece trail (.reference kind name m) pass = outcome
    have expanded := result ▸ expandPiece_expanded s trail (.reference kind name m) pass
    have further : ∀ next, pass.includes m = (true, next) → ∃ d rules longer,
        s.resolve ⟨kind, name, m.variation⟩ = .ok (d, rules) ∧
          trail.step? ⟨kind, name, m.variation⟩ = some longer ∧
          s.listRules longer kind name rules = .ok l :=
      fun next taken => listPiece_reference_eq_ok (run.included taken) listed
    cases expanded with
    | referenceLeft left =>
      rw [listPiece_excluded (run.excluded left)] at listed
      obtain rfl := Except.ok.inj listed
      exact .listed List.mem_cons_self
    | unresolved taken resolves =>
      obtain ⟨d, rules, longer, resolves', _⟩ := further _ taken
      rw [resolves] at resolves'
      cases resolves'
    | ruleless taken resolves draws =>
      obtain rfl := choose_none draws
      exact .ruleless (t := ⟨kind, name, m.variation⟩) resolves
    | cycle taken _ _ steps =>
      obtain ⟨d, rules, longer, _, steps', _⟩ := further _ taken
      rw [steps] at steps'
      cases steps'
    | @referenceFailed _ _ _ _ next d rules rule chosen longer _ _ taken resolves draws steps
        body =>
      obtain ⟨_, _, _, resolves', steps', listed⟩ := further _ taken
      rw [resolves] at resolves'
      cases resolves'
      rw [steps] at steps'
      cases steps'
      have known := mem_of_choose draws
      obtain ⟨own, listed, _⟩ := listed_of_listRules listed known
      have inside := (asListed_reference.mp run).2 _ _ _ _ _ _ taken resolves draws steps
      have inner := ih d rules longer resolves steps rule known own listed chosen inside.1
      rw [body] at inner
      exact inner.of_error
    | @reference _ _ _ _ next d rules rule chosen longer f last taken resolves draws steps body =>
      obtain ⟨_, _, _, resolves', steps', listed⟩ := further _ taken
      rw [resolves] at resolves'
      cases resolves'
      rw [steps] at steps'
      cases steps'
      have known := mem_of_choose draws
      obtain ⟨own, listed, shown⟩ := listed_of_listRules listed known
      have inside := (asListed_reference.mp run).2 _ _ _ _ _ _ taken resolves draws steps
      have inner := ih d rules longer resolves steps rule known own listed chosen inside.1
      rw [body] at inner
      simp only [inside.2 f last body]
      exact .listed (shown f inner.mem)
  case nil =>
    intro trail l listed pass _
    rw [listPieces_nil] at listed
    obtain rfl := Except.ok.inj listed
    rw [expandPieces_nil]
    exact .listed List.mem_cons_self
  case cons =>
    intro trail p rest one others l whole pass run
    obtain ⟨first, later, listed, listed', rfl⟩ := listPieces_cons_eq_ok whole
    obtain ⟨alone, after⟩ := asListed_cons.mp run
    have head := one first listed pass alone
    generalize result : s.expandPieces trail (p :: rest) pass = outcome
    have expanded := result ▸ expandPieces_expanded s trail p rest pass
    cases expanded with
    | failed failure =>
      rw [failure] at head
      exact head.of_error
    | @failedLater f next _ _ done failure =>
      have tail := others later listed' next (after f next done)
      rw [failure] at tail
      exact tail.of_error
    | @done f next g last done more =>
      have tail := others later listed' next (after f next done)
      rw [more] at tail
      rw [done] at head
      exact .listed (mem_combine.mpr ⟨f, head.mem, g, tail.mem, rfl⟩)

/-- **Listing is what plain runs give.** Where no named group is mixed and every definition has
fewer rules than there are words, the listed fragments are what the plain runs of a rule give that
do not fail, and these fail only where they come to a definition without rules. -/
theorem listRule_runs {l : List Fragment} (small : ∀ d ∈ s.all, d.allRules.length < Words.span)
    (unmixed : s.Unmixed r) (listed : s.listRule [] r = .ok l) :
    (∀ f ∈ l, ∃ word, s.Plain [] r.pieces ⟨⟨word, 0⟩, []⟩ ∧
      (s.expandRule [] r ⟨⟨word, 0⟩, []⟩).1 = .ok f) ∧
    ∀ w, s.Plain [] r.pieces ⟨w, []⟩ → s.Answers l (s.expandRule [] r ⟨w, []⟩).1 := by
  constructor
  · intro f hf
    have known : ∀ m ∈ r.allModifiers, m ∈ s.modifiersFor r :=
      fun _ hm => List.mem_append_left _ hm
    have forced := (forced_of_listed small unmixed []).2 r.pieces known l listed f hf
    obtain ⟨words, after, _, runs⟩ := forced [] settled_start
    obtain ⟨word, supplied⟩ := Words.exists_supplies words
    obtain ⟨run, asListed⟩ := runs _ supplied
    exact ⟨word, asListed.plain, congrArg Prod.fst run⟩
  · intro w plain
    exact (answers_of_listed []).2 r.pieces l listed _ (plain.asListed unmixed)

theorem listRule_runs_greeting : ∃ s r,
    Template.read {} "~[hi]\n  hello\n  hi\n" = .ok s ∧ Rule.read "[oh?g] ~[&hi]" = .ok r ∧
      (∃ word, (s.expandRule [] r ⟨⟨word, 0⟩, []⟩).1 = .ok ⟨"oh hi", []⟩) ∧
      ∀ w, s.Plain [] r.pieces ⟨w, []⟩ →
        s.Answers [⟨"oh hello", []⟩, ⟨"oh hi", []⟩] (s.expandRule [] r ⟨w, []⟩).1 := by
  let s : Store := ⟨⟨[("hi", ⟨"hi", .alias, false,
    [⟨none, none, [⟨[.word "hello"], none⟩, ⟨[.word "hi"], none⟩]⟩]⟩)], by decide⟩, ∅, ∅⟩
  let r : Rule := ⟨[.group [.word "oh"] none ⟨false, none, some "g", none⟩,
    .reference .alias "hi" ⟨true, none, none, none⟩], none⟩
  have loaded : Template.read {} "~[hi]\n  hello\n  hi\n" = .ok s := by cbv
  have read : Rule.read "[oh?g] ~[&hi]" = .ok r := by cbv
  have small : ∀ d ∈ s.all, d.allRules.length < Words.span := by decide
  have unmixed : s.Unmixed r := by
    have never : ∀ m ∈ s.modifiersFor r, m.inclusion ≠ some 0 := by decide
    exact fun m hm _ _ _ _ _ _ zero => absurd zero (never m hm)
  have listed : s.listRule [] r = .ok [⟨"oh hello", []⟩, ⟨"oh hi", []⟩] := by cbv
  obtain ⟨reachable, only⟩ := listRule_runs small unmixed listed
  obtain ⟨word, _, run⟩ := reachable ⟨"oh hi", []⟩ (by decide)
  exact ⟨s, r, loaded, read, ⟨word, run⟩, only⟩

/-- A listed reference can lead to a definition without rules, and a run that draws it fails. -/
theorem ruleless_run_fails : ∃ (s : Store) (r : Rule) (l : List Fragment),
    (∀ d ∈ s.all, d.allRules.length < Words.span) ∧ s.Unmixed r ∧ s.listRule [] r = .ok l ∧
      ∃ w : Words, w.taken = 0 ∧ s.Plain [] r.pieces ⟨w, []⟩ ∧
        ¬ ∃ f ∈ l, (s.expandRule [] r ⟨w, []⟩).1 = .ok f := by
  let empty : Rule := ⟨[.reference .alias "e" {}], none⟩
  let a : Definition := ⟨"a", .alias, false, [⟨none, none, [⟨[.word "x"], none⟩, empty]⟩]⟩
  let e : Definition := ⟨"e", .alias, false, []⟩
  let s : Store := ⟨⟨[("a", a), ("e", e)], by decide⟩, ∅, ∅⟩
  let r : Rule := ⟨[.reference .alias "a" {}], none⟩
  let w : Words := ⟨fun _ => 0xFFFFFFFF, 0⟩
  have small : ∀ d ∈ s.all, d.allRules.length < Words.span := by decide
  have unmixed : s.Unmixed r := by
    have never : ∀ m ∈ s.modifiersFor r, m.inclusion ≠ some 0 := by decide
    exact fun m hm _ _ _ _ _ _ zero => absurd zero (never m hm)
  have listed : s.listRule [] r = .ok [⟨"x", []⟩] := by cbv
  have fails : (s.expandRule [] r ⟨w, []⟩).1 = .error (.withoutRules .alias "e") := by cbv
  have found : s.resolve ⟨.alias, "a", none⟩ = .ok (a, [⟨[.word "x"], none⟩, empty]) := by cbv
  have found' : s.resolve ⟨.alias, "e", none⟩ = .ok (e, []) := by cbv
  have plain : s.AsListed [] r.pieces ⟨w, []⟩ := by
    refine asListed_reference.mpr ⟨rfl, fun _ _ _ _ _ _ _ resolves draws _ => ?_⟩
    obtain ⟨rfl, rfl⟩ := Prod.mk.inj (Except.ok.inj (found.symm.trans resolves))
    refine ⟨?_, fun _ _ _ => rfl⟩
    rcases List.mem_cons.mp (mem_of_choose draws) with rfl | other
    · exact asListed_word "x"
    · obtain rfl := List.mem_singleton.mp other
      refine asListed_reference.mpr ⟨rfl, fun _ _ _ _ _ _ _ resolves draws _ => ?_⟩
      obtain ⟨rfl, rfl⟩ := Prod.mk.inj (Except.ok.inj (found'.symm.trans resolves))
      exact absurd (mem_of_choose draws) List.not_mem_nil
  refine ⟨s, r, _, small, unmixed, listed, w, rfl, plain.plain, ?_⟩
  rintro ⟨f, _, run⟩
  rw [fails] at run
  cases run

end Phrasebook.Store
