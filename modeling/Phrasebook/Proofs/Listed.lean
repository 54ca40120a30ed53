import Phrasebook.Proofs.Outcome
import Phrasebook.Proofs.Run

/-!
# Runs as listing has them

Listing looks at one kind of run only: every piece is taken but those at zero percent, and nothing
is recased.

* `Store.AsListed`: the runs of this kind. What such a run is for a piece comes down to the runs
  inside it (`asListed_group`, `asListed_reference`, `asListed_cons`);
* `mem_combine`, `mem_listRules`: what a list of fragments is made of.
-/

namespace Phrasebook

theorem Fragment.recase_asWritten (f : Fragment) : f.recase .asWritten = f := by
  simp [recase, Casing.apply]

theorem Fragment.shown_asWritten (kind : Kind) (name : String) (value : Option String)
    (f : Fragment) :
    f.shown kind name value .asWritten =
      if kind = .slot then f.tagged name value f.text else f := by
  rw [shown, recase_asWritten]

namespace Store

def Happening.AsListed : Happening → Prop
  | .reached _ p pass => (pass.includes p.modifiers).1 = !p.isExcluded
  | .recased c => c = .asWritten

/-- A run that takes every piece but those at zero percent, and recases nothing. -/
def AsListed (s : Store) (trail : Trail) (pieces : List Piece) (pass : Pass) : Prop :=
  ∀ h, s.Happens trail pieces pass h → h.AsListed

section
variable {s : Store} {trail longer : Trail} {kind : Kind} {name : String} {m : Modifiers}
  {pass : Pass}

/-! ## Runs -/

theorem AsListed.first {p : Piece} {rest : List Piece} (h : s.AsListed trail (p :: rest) pass) :
    (pass.includes p.modifiers).1 = !p.isExcluded :=
  h _ .reached

theorem asListed_nil : s.AsListed trail [] pass := by
  rintro h ⟨⟩

theorem asListed_word (text : String) : s.AsListed trail [.word text] pass := by
  intro h happens
  cases happens with
  | reached => rfl
  | later _ after => cases after

theorem asListed_cons {p : Piece} {rest : List Piece} :
    s.AsListed trail (p :: rest) pass ↔ s.AsListed trail [p] pass ∧
      ∀ f next, s.expandPiece trail p pass = (.ok f, next) → s.AsListed trail rest next := by
  constructor
  · intro all
    constructor
    · intro h alone
      exact all h (alone.before rest)
    · intro f next first h after
      exact all h (.later first after)
  · rintro ⟨alone, others⟩ h happens
    cases happens with
    | reached => exact alone _ .reached
    | inGroup taken inside => exact alone h (.inGroup taken inside)
    | groupRecased taken body random => exact alone _ (.groupRecased taken body random)
    | inRule taken resolves draws steps inside =>
      exact alone h (.inRule taken resolves draws steps inside)
    | referenceRecased taken resolves draws steps body random =>
      exact alone _ (.referenceRecased taken resolves draws steps body random)
    | later first after => exact others _ _ first h after

theorem asListed_group {pieces : List Piece} {value : Option String} :
    s.AsListed trail [.group pieces value m] pass ↔
      (pass.includes m).1 = !(Piece.group pieces value m).isExcluded ∧
      ∀ next, pass.includes m = (true, next) → s.AsListed trail pieces next ∧
        ∀ f last, s.expandPieces trail pieces next = (.ok f, last) →
          (last.casing m.casing).1 = .asWritten := by
  constructor
  · intro all
    refine ⟨all.first, fun next taken => ⟨?_, ?_⟩⟩
    · intro h inside
      exact all h (.inGroup taken inside)
    intro f last body
    cases random : m.casing with
    | false => rfl
    | true => exact all _ (.groupRecased taken body random)
  · rintro ⟨decided, inner⟩ h happens
    cases happens with
    | reached => exact decided
    | inGroup taken inside => exact (inner _ taken).1 h inside
    | groupRecased taken body random => exact random ▸ (inner _ taken).2 _ _ body
    | later _ after => cases after

theorem asListed_reference :
    s.AsListed trail [.reference kind name m] pass ↔
      (pass.includes m).1 = !(Piece.reference kind name m).isExcluded ∧
      ∀ next d rules rule chosen longer, pass.includes m = (true, next) →
        s.resolve ⟨kind, name, m.variation⟩ = .ok (d, rules) →
        next.choose rules = (some rule, chosen) →
        trail.step? ⟨kind, name, m.variation⟩ = some longer →
        s.AsListed longer rule.pieces chosen ∧
          ∀ f last, s.expandPieces longer rule.pieces chosen = (.ok f, last) →
            (last.casing (m.casing || d.casing)).1 = .asWritten := by
  constructor
  · intro all
    refine ⟨all.first, fun next d rules rule chosen longer taken resolves draws steps => ⟨?_, ?_⟩⟩
    · intro h inside
      exact all h (.inRule taken resolves draws steps inside)
    intro f last body
    cases random : m.casing || d.casing with
    | false => rfl
    | true => exact all _ (.referenceRecased taken resolves draws steps body random)
  · rintro ⟨decided, inner⟩ h happens
    cases happens with
    | reached => exact decided
    | inRule taken resolves draws steps inside =>
      exact (inner _ _ _ _ _ _ taken resolves draws steps).1 h inside
    | referenceRecased taken resolves draws steps body random =>
      exact random ▸ (inner _ _ _ _ _ _ taken resolves draws steps).2 _ _ body
    | later _ after => cases after

/-! ## Lists -/

theorem mem_combine {first others : List Fragment} {f : Fragment} :
    f ∈ combine first others ↔ ∃ g ∈ first, ∃ h ∈ others, g.append h = f := by
  simp only [combine, List.mem_flatMap, List.mem_map]

theorem listPieces_cons_eq_ok {p : Piece} {rest : List Piece} {l : List Fragment}
    (h : s.listPieces trail (p :: rest) = .ok l) :
    ∃ first others, s.listPiece trail p = .ok first ∧ s.listPieces trail rest = .ok others ∧
      l = combine first others := by
  rw [listPieces_cons] at h
  obtain ⟨first, listed, h⟩ := bind_eq_ok.mp h
  obtain ⟨others, listed', h⟩ := bind_eq_ok.mp h
  exact ⟨first, others, listed, listed', (Except.ok.inj h).symm⟩

theorem listPiece_reference_eq_ok {l : List Fragment}
    (there : (Piece.reference kind name m).isExcluded = false)
    (h : s.listPiece trail (.reference kind name m) = .ok l) :
    ∃ d rules longer, s.resolve ⟨kind, name, m.variation⟩ = .ok (d, rules) ∧
      trail.step? ⟨kind, name, m.variation⟩ = some longer ∧
      s.listRules longer kind name rules = .ok l := by
  cases resolves : s.resolve ⟨kind, name, m.variation⟩ with
  | error e =>
    rw [listPiece_unresolved there resolves] at h
    cases h
  | ok found =>
    obtain ⟨d, rules⟩ := found
    cases steps : trail.step? ⟨kind, name, m.variation⟩ with
    | none =>
      rw [listPiece_cycle there resolves steps] at h
      cases h
    | some longer =>
      rw [listPiece_reference there resolves steps] at h
      exact ⟨d, rules, longer, rfl, rfl, h⟩

/-- Each rule of a definition is listed, and its fragments are shown as the definition's own. -/
theorem listed_of_listRules {rules : List Rule} {l : List Fragment}
    (h : s.listRules trail kind name rules = .ok l) {r : Rule} (hr : r ∈ rules) :
    ∃ own, s.listPieces trail r.pieces = .ok own ∧
      ∀ f ∈ own, f.shown kind name r.value .asWritten ∈ l := by
  induction rules generalizing l with
  | nil => cases hr
  | cons first rest ih =>
    rw [listRules_cons] at h
    obtain ⟨own, listed, h⟩ := bind_eq_ok.mp h
    obtain ⟨others, listed', h⟩ := bind_eq_ok.mp h
    obtain rfl := Except.ok.inj h
    rcases List.mem_cons.mp hr with rfl | hr
    · refine ⟨own, listed, fun f hf => List.mem_append_left _ ?_⟩
      exact List.mem_map.mpr ⟨f, hf, (Fragment.shown_asWritten kind name r.value f).symm⟩
    · obtain ⟨own, listed, shown⟩ := ih listed' hr
      exact ⟨own, listed, fun f hf => List.mem_append_right _ (shown f hf)⟩

theorem mem_listRules {rules : List Rule} {l : List Fragment}
    (h : s.listRules trail kind name rules = .ok l) {f : Fragment} (hf : f ∈ l) :
    ∃ r ∈ rules, ∃ own, s.listPieces trail r.pieces = .ok own ∧
      ∃ g ∈ own, g.shown kind name r.value .asWritten = f := by
  induction rules generalizing l with
  | nil =>
    rw [listRules_nil] at h
    cases h
    cases hf
  | cons first rest ih =>
    rw [listRules_cons] at h
    obtain ⟨own, listed, h⟩ := bind_eq_ok.mp h
    obtain ⟨others, listed', h⟩ := bind_eq_ok.mp h
    obtain rfl := Except.ok.inj h
    rcases List.mem_append.mp hf with hf | hf
    · obtain ⟨g, hg, rfl⟩ := List.mem_map.mp hf
      exact ⟨first, List.mem_cons_self, own, listed, g, hg,
        Fragment.shown_asWritten kind name first.value g⟩
    · obtain ⟨r, hr, found⟩ := ih listed' hf
      exact ⟨r, List.mem_cons_of_mem _ hr, found⟩

end
end Store
end Phrasebook
