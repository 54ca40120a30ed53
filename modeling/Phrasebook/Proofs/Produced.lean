import Phrasebook.Proofs.Listed

/-!
# What rules produce

The fragments that pieces can produce at all, whatever is drawn: each piece there or left out, each
reference standing for any of its rules, each text in any casing. Runs and listings choose among
them, so that what all of them have, every run and every listing has.

* `Store.Produces`: the fragments of pieces, by the first piece;
* `produces_of_expand`, `produces_of_list`: runs and listings give nothing else;
* `Fragment.Kept`: what fragments keep while they are put together;
* `Produces.keeps`, `kept_of_words`: it holds of all that is made of words it holds of.
-/

namespace Phrasebook

/-! ## Joined texts -/

theorem toList_joinTexts {a b : String} (first : a ≠ "") (second : b ≠ "") :
    (joinTexts a b).toList = a.toList ++ ' ' :: b.toList := by
  simp [joinTexts, String.isEmpty_iff, first, second]

theorem joinTexts_empty (a : String) : joinTexts a "" = a := by
  by_cases first : a = "" <;> simp [joinTexts, first]

theorem empty_joinTexts (b : String) : joinTexts "" b = b := rfl

theorem prefix_joinTexts (a b : String) : a.toList <+: (joinTexts a b).toList := by
  by_cases first : a = ""
  · simp [first]
  by_cases second : b = ""
  · simp [second, joinTexts_empty]
  · rw [toList_joinTexts first second]
    exact List.prefix_append _ _

theorem suffix_joinTexts (a b : String) : b.toList <:+ (joinTexts a b).toList := by
  by_cases first : a = ""
  · simp [first, empty_joinTexts]
  by_cases second : b = ""
  · simp [second]
  · rw [toList_joinTexts first second, List.append_cons]
    exact List.suffix_append _ _

theorem mem_joinTexts {a b : String} {c : Char} (h : c ∈ (joinTexts a b).toList) :
    c ∈ a.toList ∨ c = ' ' ∨ c ∈ b.toList := by
  by_cases first : a = ""
  · rw [first, empty_joinTexts] at h
    exact .inr (.inr h)
  by_cases second : b = ""
  · rw [second, joinTexts_empty] at h
    exact .inl h
  · rw [toList_joinTexts first second, List.mem_append, List.mem_cons] at h
    exact h

theorem Fragment.append_empty (f : Fragment) : f.append {} = f := by
  simp only [append, joinTexts_empty, List.append_nil]

section
variable {slot written : String} {value : Option String} {f : Fragment} {e : Entity}

theorem Fragment.tagged_text : (f.tagged slot value written).text = f.text := by
  unfold tagged
  split <;> rfl

theorem Fragment.mem_tagged : e ∈ (f.tagged slot value written).entities ↔
    e ∈ f.entities ∨ f.text ≠ "" ∧ e = ⟨slot, f.text, value.getD written⟩ := by
  unfold tagged
  by_cases filled : f.text = "" <;> simp [filled]

end

/-! ## Words and what is made of them -/

namespace Piece

mutual

/-- The words of a piece, those inside groups included. -/
def words : Piece → List String
  | word text => [text]
  | group pieces _ _ => wordsOf pieces
  | reference _ _ _ => []

def wordsOf : List Piece → List String
  | [] => []
  | p :: rest => p.words ++ wordsOf rest

end

end Piece

def Rule.words (r : Rule) : List String := Piece.wordsOf r.pieces

def Store.words (s : Store) : List String := s.all.flatMap fun d => d.allRules.flatMap Rule.words

/-- What holds of the empty fragment and of a word with `P`, and is kept by every step that makes
a fragment of others. -/
structure Fragment.Kept (P : String → Prop) (I : Fragment → Prop) : Prop where
  empty : I {}
  word : ∀ text, P text → I (.word text)
  append : ∀ f g, I f → I g → I (f.append g)
  recase : ∀ c f, I f → I (f.recase c)
  tagged : ∀ slot value written f, I f → I (f.tagged slot value written)

theorem Fragment.Kept.shown {P : String → Prop} {I : Fragment → Prop} (kept : Fragment.Kept P I)
    (kind : Kind) (name : String) (value : Option String) (c : Casing) {f : Fragment} (h : I f) :
    I (f.shown kind name value c) := by
  unfold Fragment.shown
  split
  · exact kept.tagged _ _ _ _ (kept.recase c f h)
  · exact kept.recase c f h

namespace Store

theorem words_of_resolve {s : Store} {t : Target} {d : Definition} {rules : List Rule}
    (h : s.resolve t = .ok (d, rules)) {r : Rule} (hr : r ∈ rules) {text : String}
    (ht : text ∈ r.words) : text ∈ s.words := by
  obtain ⟨found, meant⟩ := resolve_eq_ok.mp h
  exact List.mem_flatMap.mpr ⟨d, mem_all_of_find? found,
    List.mem_flatMap.mpr ⟨r, mem_allRules_of_rulesOf meant hr, ht⟩⟩

/-- A fragment of the pieces: what the first one contributes, followed by a fragment of the rest. -/
inductive Produces (s : Store) : List Piece → Fragment → Prop
  | nil : Produces s [] {}
  | left {p rest g} (after : Produces s rest g) : Produces s (p :: rest) g
  | word {text rest g} (after : Produces s rest g) :
      Produces s (.word text :: rest) ((Fragment.word text).append g)
  | group {pieces value m rest f g} (c : Casing) (inside : Produces s pieces f)
      (after : Produces s rest g) :
      Produces s (.group pieces value m :: rest) ((f.recase c).append g)
  | reference {kind name m d rules rule rest f g} (c : Casing)
      (resolves : s.resolve ⟨kind, name, m.variation⟩ = .ok (d, rules)) (meant : rule ∈ rules)
      (inside : Produces s rule.pieces f) (after : Produces s rest g) :
      Produces s (.reference kind name m :: rest) ((f.shown kind name rule.value c).append g)

/-- The piece can contribute the fragment, whatever follows it. -/
def Offers (s : Store) (p : Piece) (f : Fragment) : Prop :=
  ∀ rest g, s.Produces rest g → s.Produces (p :: rest) (f.append g)

theorem produces_of_expand (s : Store) (trail : Trail) :
    (∀ p pass f last, s.expandPiece trail p pass = (.ok f, last) → s.Offers p f) ∧
      ∀ pieces pass f last, s.expandPieces trail pieces pass = (.ok f, last) →
        s.Produces pieces f := by
  refine s.walk_induction (Q := fun trail p => ∀ pass f last,
    s.expandPiece trail p pass = (.ok f, last) → s.Offers p f) (P := fun trail pieces =>
    ∀ pass f last, s.expandPieces trail pieces pass = (.ok f, last) → s.Produces pieces f)
    ?word ?group ?reference ?nil ?cons trail
  case word =>
    intro trail text pass f last run
    rw [expandPiece_word] at run
    cases run
    exact fun _ _ after => .word after
  case group =>
    intro trail pieces value m inner pass f last run rest g after
    have expanded := run ▸ s.expandPiece_expanded trail (.group pieces value m) pass
    cases expanded with
    | groupLeft => exact .left after
    | group _ body => exact .group _ (inner _ _ _ body) after
  case reference =>
    intro trail kind name m inner pass f last run rest g after
    have expanded := run ▸ s.expandPiece_expanded trail (.reference kind name m) pass
    cases expanded with
    | referenceLeft => exact .left after
    | reference _ resolves draws steps body =>
      have meant := mem_of_choose draws
      exact .reference _ resolves meant (inner _ _ _ resolves steps _ meant _ _ _ body) after
  case nil =>
    intro trail pass f last run
    rw [expandPieces_nil] at run
    cases run
    exact .nil
  case cons =>
    intro trail p rest first others pass f last run
    have expanded := run ▸ s.expandPieces_expanded trail p rest pass
    cases expanded with
    | done head tail => exact first _ _ _ head _ _ (others _ _ _ tail)

theorem produces_of_list (s : Store) (trail : Trail) :
    (∀ p l, s.listPiece trail p = .ok l → ∀ f ∈ l, s.Offers p f) ∧
      ∀ pieces l, s.listPieces trail pieces = .ok l → ∀ f ∈ l, s.Produces pieces f := by
  refine s.walk_induction (Q := fun trail p => ∀ l, s.listPiece trail p = .ok l →
    ∀ f ∈ l, s.Offers p f) (P := fun trail pieces => ∀ l,
    s.listPieces trail pieces = .ok l → ∀ f ∈ l, s.Produces pieces f)
    ?word ?group ?reference ?nil ?cons trail
  case word =>
    intro trail text l listed f hf rest g after
    rw [listPiece_word] at listed
    cases listed
    rw [List.mem_singleton.mp hf]
    exact .word after
  case group =>
    intro trail pieces value m inner l listed f hf rest g after
    cases out : (Piece.group pieces value m).isExcluded with
    | true =>
      rw [listPiece_excluded out] at listed
      cases listed
      rw [List.mem_singleton.mp hf]
      exact .left after
    | false =>
      rw [listPiece_group out] at listed
      have produced : s.Produces (.group pieces value m :: rest)
          ((f.recase .asWritten).append g) := .group _ (inner l listed f hf) after
      rwa [Fragment.recase_asWritten] at produced
  case reference =>
    intro trail kind name m inner l listed f hf rest g after
    cases out : (Piece.reference kind name m).isExcluded with
    | true =>
      rw [listPiece_excluded out] at listed
      cases listed
      rw [List.mem_singleton.mp hf]
      exact .left after
    | false =>
      obtain ⟨d, rules, longer, resolves, steps, listed⟩ := listPiece_reference_eq_ok out listed
      obtain ⟨r, hr, own, body, h, hh, rfl⟩ := mem_listRules listed hf
      have produced := inner d rules longer resolves steps r hr own body h hh
      exact .reference .asWritten resolves hr produced after
  case nil =>
    intro trail l listed f hf
    rw [listPieces_nil] at listed
    cases listed
    rw [List.mem_singleton.mp hf]
    exact .nil
  case cons =>
    intro trail p rest first others l listed f hf
    obtain ⟨heads, tails, head, tail, rfl⟩ := listPieces_cons_eq_ok listed
    obtain ⟨g, hg, h, hh, rfl⟩ := mem_combine.mp hf
    exact first heads head g hg rest h (others tails tail h hh)

variable {s : Store} {trail : Trail} {r : Rule} {f : Fragment}

theorem produces_of_expandRule {pass : Pass} (run : (s.expandRule trail r pass).1 = .ok f) :
    s.Produces r.pieces f :=
  (s.produces_of_expand trail).2 r.pieces pass f _ (Prod.ext run rfl)

theorem produces_of_listRule {l : List Fragment} (listed : s.listRule trail r = .ok l)
    (hf : f ∈ l) : s.Produces r.pieces f :=
  (s.produces_of_list trail).2 r.pieces l listed f hf

theorem Produces.keeps {P : String → Prop} {I : Fragment → Prop} (kept : Fragment.Kept P I)
    (stored : ∀ text ∈ s.words, P text) {pieces : List Piece} (h : s.Produces pieces f)
    (own : ∀ text ∈ Piece.wordsOf pieces, P text) : I f := by
  induction h with
  | nil => exact kept.empty
  | left _ ih => exact ih fun text ht => own text (List.mem_append_right _ ht)
  | word _ ih =>
    have rest := ih fun text ht => own text (List.mem_append_right _ ht)
    exact kept.append _ _ (kept.word _ (own _ (List.mem_append_left _ List.mem_cons_self))) rest
  | group c _ _ ih ih' =>
    have inner := ih fun text ht => own text (List.mem_append_left _ ht)
    have rest := ih' fun text ht => own text (List.mem_append_right _ ht)
    exact kept.append _ _ (kept.recase c _ inner) rest
  | reference c resolves meant _ _ ih ih' =>
    have inner := ih fun text ht => stored text (words_of_resolve resolves meant ht)
    have rest := ih' fun text ht => own text (List.mem_append_right _ ht)
    exact kept.append _ _ (kept.shown _ _ _ c inner) rest

/-- What is kept holds of all that a rule can be expanded to and of all that is listed for it. -/
theorem kept_of_words {P : String → Prop} {I : Fragment → Prop} (kept : Fragment.Kept P I)
    (all : ∀ text ∈ r.words ++ s.words, P text) :
    (∀ trail pass f, (s.expandRule trail r pass).1 = .ok f → I f) ∧
      ∀ trail l, s.listRule trail r = .ok l → ∀ f ∈ l, I f := by
  have own : ∀ text ∈ r.words, P text := fun text ht => all text (List.mem_append_left _ ht)
  have stored : ∀ text ∈ s.words, P text := fun text ht => all text (List.mem_append_right _ ht)
  constructor
  · intro trail pass f run
    exact (produces_of_expandRule run).keeps kept stored own
  · intro trail l listed f hf
    exact (produces_of_listRule listed hf).keeps kept stored own

end Store
end Phrasebook
