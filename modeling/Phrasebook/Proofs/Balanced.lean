import Phrasebook.Proofs.Escaping
import Phrasebook.Rule.Block

/-!
# Balanced text

Text in which every bracket has its partner and no backslash is without the character it makes
literal. It can stand before any other text without a change to how that is read.

* `Balanced`: such text, with what is known of its characters outside of brackets;
* `Walk`: what the readers that look for the end of a part have in common;
* `Walk.balanced`, `Walk.escape`: such a reader goes through balanced and through escaped text;
* `inside?_balanced`: the closing bracket behind balanced text is one that is not escaped.
-/

namespace Phrasebook.Text

/-- Outside of brackets, the escaped characters are as `e` says and the others as `p` says. -/
inductive Balanced : (Char → Prop) → (Char → Prop) → List Char → Prop
  | nil {e p} : Balanced e p []
  | escaped {e p c rest} (known : e c) (after : Balanced e p rest) :
      Balanced e p ('\\' :: c :: rest)
  | plain {e p c rest} (unescaped : c ≠ '\\') (opens : c ≠ '[') (closes : c ≠ ']') (known : p c)
      (after : Balanced e p rest) : Balanced e p (c :: rest)
  | nested {e p inner rest} (inside : Balanced (fun _ => True) (fun _ => True) inner)
      (after : Balanced e p rest) : Balanced e p ('[' :: (inner ++ ']' :: rest))

/-- Balanced text, with nothing known of its characters. -/
abbrev Paired : List Char → Prop := Balanced (fun _ => True) (fun _ => True)

section
variable {e p : Char → Prop} {s t : List Char}

theorem Balanced.append (hs : Balanced e p s) (ht : Balanced e p t) : Balanced e p (s ++ t) := by
  induction hs with
  | nil => exact ht
  | escaped known _ ih => exact .escaped known (ih ht)
  | plain unescaped opens closes known _ ih => exact .plain unescaped opens closes known (ih ht)
  | nested inside _ _ ih =>
    rw [List.cons_append, List.append_assoc, List.cons_append]
    exact .nested inside (ih ht)

/-- The characters that have to be escaped for a text to be read as it is. -/
def structural : List Char := ['[', ']', '\\']

theorem not_mem_structural {c : Char} : c ∉ structural ↔ c ≠ '[' ∧ c ≠ ']' ∧ c ≠ '\\' := by
  simp [structural]

theorem ordinary_of_not_mem {special : List Char} {c : Char} (guarded : structural ⊆ special)
    (h : c ∉ special) : c ≠ '[' ∧ c ≠ ']' ∧ c ≠ '\\' :=
  not_mem_structural.mp fun known => h (guarded known)

theorem ordinary_of_isBlank {c : Char} (blank : isBlank c = true) :
    c ≠ '[' ∧ c ≠ ']' ∧ c ≠ '\\' := by
  have visible : structural.all fun d => !isBlank d := by decide
  refine not_mem_structural.mp fun known => ?_
  simpa [blank] using List.all_eq_true.mp visible c known

/-- A backslash that makes no character literal is the last character. -/
theorem last_of_alone {c : Char} (alone : ∀ d t, c = '\\' → s = d :: t → False)
    (same : c = '\\') : s = [] := by
  cases s with
  | nil => rfl
  | cons d t => exact (alone d t same rfl).elim

theorem balanced_escape {special : List Char} (guarded : structural ⊆ special)
    (he : ∀ c ∈ s, c ∈ special → e c) (hp : ∀ c ∈ s, c ∉ special → p c) :
    Balanced e p (escape special s) := by
  induction s with
  | nil => exact .nil
  | cons c rest ih =>
    have after := ih (fun c h => he c (List.mem_cons_of_mem _ h))
      (fun c h => hp c (List.mem_cons_of_mem _ h))
    by_cases known : c ∈ special
    · rw [escape_cons_of_mem known]
      exact .escaped (he c List.mem_cons_self known) after
    · rw [escape_cons_of_not_mem known]
      obtain ⟨opens, closes, unescaped⟩ := ordinary_of_not_mem guarded known
      exact .plain unescaped opens closes (hp c List.mem_cons_self known) after

/-! ## Walks through a text -/

/-- A reader that looks for the end of a part. It takes escapes as they are, counts brackets, and
goes on past a character unless it `stops` there. -/
structure Walk {F : Type → Type} [Functor F]
    (f : Nat → List Char → F (List Char × List Char)) (stops : Nat → Char → Prop) : Prop where
  escaped : ∀ depth c rest, f depth ('\\' :: c :: rest) =
    (fun parts => ('\\' :: c :: parts.1, parts.2)) <$> f depth rest
  passed : ∀ depth c rest, c ≠ '\\' → ¬ stops depth c →
    f depth (c :: rest) = (fun parts => (c :: parts.1, parts.2)) <$> f (depthAfter c depth) rest

theorem depthAfter_of_ne {c : Char} (opens : c ≠ '[') (closes : c ≠ ']') (depth : Nat) :
    depthAfter c depth = depth := by
  rw [depthAfter, if_neg opens, if_neg closes]

/-- One level further in, the brackets lead as far. -/
theorem depthAfter_succ {c : Char} {depth : Nat} (inside : c = ']' → depth ≠ 0) :
    depthAfter c (depth + 1) = depthAfter c depth + 1 := by
  by_cases closes : c = ']'
  · have deep := inside closes
    have left : ∀ n, depthAfter ']' n = n - 1 := fun _ => rfl
    rw [closes, left, left]
    omega
  · by_cases opens : c = '['
    · rw [depthAfter, depthAfter, if_pos opens, if_pos opens]
    · rw [depthAfter_of_ne opens closes, depthAfter_of_ne opens closes]

section
variable {F : Type → Type} [Functor F] [LawfulFunctor F]
  {f : Nat → List Char → F (List Char × List Char)} {stops : Nat → Char → Prop}

/-- A walk that stops nowhere inside of brackets goes through balanced text. -/
theorem Walk.balanced (walk : Walk f stops) (deep : ∀ depth c, ¬ stops (depth + 1) c)
    (hs : Balanced e p s) {depth : Nat} (opens : ¬ stops depth '[')
    (known : ∀ c, c ≠ ']' → p c → ¬ stops depth c) (t : List Char) :
    f depth (s ++ t) = (fun parts => (s ++ parts.1, parts.2)) <$> f depth t := by
  induction hs generalizing depth t with
  | nil => exact (LawfulFunctor.id_map _).symm
  | escaped _ _ ih =>
    rw [List.cons_append, List.cons_append, walk.escaped, ih opens known, ← LawfulFunctor.comp_map]
    rfl
  | @plain _ _ c _ unescaped opens' closes' stays _ ih =>
    rw [List.cons_append, walk.passed _ _ _ unescaped (known c closes' stays),
      depthAfter_of_ne opens' closes', ih opens known, ← LawfulFunctor.comp_map]
    rfl
  | @nested _ _ inner rest _ _ within ih =>
    rw [List.cons_append, List.append_assoc, List.cons_append,
      walk.passed _ '[' _ (by decide) opens]
    have entered : depthAfter '[' depth = depth + 1 := rfl
    have left : depthAfter ']' (depth + 1) = depth := rfl
    rw [entered, within (deep depth _) (fun c _ _ => deep depth c),
      walk.passed _ ']' _ (by decide) (deep depth _), left, ih opens known,
      ← LawfulFunctor.comp_map, ← LawfulFunctor.comp_map, ← LawfulFunctor.comp_map]
    congr 1
    funext parts
    simp

/-- A walk goes through escaped text, whatever it stops at in brackets. -/
theorem Walk.escape (walk : Walk f stops) {special : List Char} (guarded : structural ⊆ special)
    {depth : Nat} (known : ∀ c ∈ s, c ∉ special → ¬ stops depth c) (t : List Char) :
    f depth (escape special s ++ t) =
      (fun parts => (Text.escape special s ++ parts.1, parts.2)) <$> f depth t := by
  induction s with
  | nil => exact (LawfulFunctor.id_map _).symm
  | cons c rest ih =>
    have after := ih (fun c h => known c (List.mem_cons_of_mem _ h))
    by_cases marked : c ∈ special
    · rw [escape_cons_of_mem marked, List.cons_append, List.cons_append, walk.escaped, after,
        ← LawfulFunctor.comp_map]
      rfl
    · obtain ⟨opens, closes, unescaped⟩ := ordinary_of_not_mem guarded marked
      rw [escape_cons_of_not_mem marked, List.cons_append,
        walk.passed _ _ _ unescaped (known c List.mem_cons_self marked),
        depthAfter_of_ne opens closes, after, ← LawfulFunctor.comp_map]
      rfl

end

theorem walk_throughClosing? : Walk throughClosing? fun depth c => c = ']' ∧ depth = 0 := by
  constructor
  · intro depth c rest
    rw [throughClosing?]
    rfl
  · intro depth c rest unescaped passes
    rw [throughClosing?.eq_def]
    split
    · next h => cases h
    · next h => cases h; exact absurd rfl unescaped
    · next h =>
      cases h
      rw [if_neg (by simpa using passes)]
      rfl

theorem walk_splitOutside? (mark : Char) :
    Walk (splitOutside? mark) fun depth c => c = mark ∧ depth = 0 := by
  constructor
  · intro depth c rest
    rw [splitOutside?]
    rfl
  · intro depth c rest unescaped passes
    rw [splitOutside?.eq_def]
    split
    · next h => cases h
    · next h => cases h; exact absurd rfl unescaped
    · next h =>
      cases h
      rw [if_neg (by simpa using passes)]
      rfl

/-! ## Escapes at the end -/

/-- How many backslashes a text ends with. -/
def trailing (s : List Char) : Nat := (s.reverse.takeWhile (· = '\\')).length

theorem trailing_append (s t : List Char) :
    trailing (s ++ t) = if trailing t = t.length then t.length + trailing s else trailing t := by
  by_cases all : trailing t = t.length
  · have all' : (t.reverse.takeWhile (· = '\\')).length = t.reverse.length := by
      rwa [List.length_reverse]
    rw [if_pos all, trailing, List.reverse_append, List.takeWhile_append, if_pos all',
      List.length_append, List.length_reverse]
    rfl
  · have some : (t.reverse.takeWhile (· = '\\')).length ≠ t.reverse.length := by
      rwa [List.length_reverse]
    rw [if_neg all, trailing, List.reverse_append, List.takeWhile_append, if_neg some]
    rfl

theorem trailing_le (s : List Char) : trailing s ≤ s.length := by
  have shorter := (List.takeWhile_prefix (· = '\\') (l := s.reverse)).length_le
  rwa [List.length_reverse] at shorter

theorem trailing_cons_of_ne {c : Char} (h : c ≠ '\\') (s : List Char) :
    trailing (c :: s) = trailing s := by
  have alone : trailing [c] = 0 := by simp [trailing, h]
  rw [← List.singleton_append, trailing_append, alone]
  split <;> omega

theorem trailing_append_cons {c : Char} (h : c ≠ '\\') (s t : List Char) :
    trailing (s ++ c :: t) = trailing t := by
  have fewer := trailing_le t
  rw [trailing_append, trailing_cons_of_ne h, List.length_cons, if_neg (by omega)]

theorem trailing_balanced (hs : Balanced e p s) : trailing s % 2 = 0 := by
  induction hs with
  | nil => rfl
  | @escaped _ _ c rest _ _ ih =>
    have pair : trailing ['\\', c] % 2 = 0 := by
      by_cases same : c = '\\'
      · simp [trailing, same]
      · simp [trailing, same]
    rw [show '\\' :: c :: rest = ['\\', c] ++ rest from rfl, trailing_append]
    split <;> omega
  | plain unescaped _ _ _ _ ih => rwa [trailing_cons_of_ne unescaped]
  | nested _ _ _ ih =>
    rw [← List.cons_append, trailing_append_cons (by decide)]
    exact ih

end
end Phrasebook.Text

namespace Phrasebook.Block

open Text

variable {e p : Char → Prop} {s t : List Char} {nests : Bool}

theorem inside?_balanced (hs : Balanced e p s) : inside? (s ++ [']']) = some s := by
  have even := trailing_balanced hs
  simp only [trailing] at even
  simp [inside?, even]

theorem walk_part (nests : Bool) : Walk (part nests) fun depth c =>
    nests = false ∧ (c = '[' ∨ c = ']') ∨ depth = 0 ∧ (c = ']' ∨ isStop c = true) := by
  constructor
  · intro depth c rest
    rw [part]
    rfl
  · intro depth c rest unescaped passes
    rw [part.eq_def]
    split
    · next h => cases h
    · next h => cases h; exact absurd rfl unescaped
    · next h =>
      cases h
      rw [if_neg (by grind), if_neg (by grind), if_neg (by grind)]
      rfl

/-- Nothing is left of the block, or its next part begins. -/
def Ends (t : List Char) : Prop := ∀ c ∈ t.head?, isStop c = true

theorem part_ends (ends : Ends t) : part nests 0 t = .ok ([], t) := by
  cases t with
  | nil => rfl
  | cons c rest =>
    have stop := ends c rfl
    rw [part.eq_def]
    split
    · next h => cases h
    · next h => cases h; exact absurd stop (by decide)
    · next h =>
      cases h
      have other : ∀ d, isStop d = false → c ≠ d := fun d hd same => by simp [same, hd] at stop
      rw [if_neg (by simp [other '[' rfl, other ']' rfl]), if_neg (by simp [other ']' rfl]),
        if_pos (by simp [stop])]

theorem part_balanced (hs : Balanced e p s) (known : ∀ c, p c → isStop c = false)
    (ends : Ends t) : part true 0 (s ++ t) = .ok (s, t) := by
  rw [(walk_part true).balanced (by simp) hs (by decide)
    (fun c closes hc => by simp [known c hc, closes]), part_ends ends]
  simp [Functor.map, Except.map]

theorem part_escape {special : List Char} (guarded : structural ⊆ special)
    (marked : ∀ c, isStop c = true → c ∈ special) (ends : Ends t) :
    part nests 0 (escape special s ++ t) = .ok (escape special s, t) := by
  have known : ∀ c ∈ s, c ∉ special →
      ¬ (nests = false ∧ (c = '[' ∨ c = ']') ∨ 0 = 0 ∧ (c = ']' ∨ isStop c = true)) := by
    intro c _ other stops
    rcases stops with ⟨_, rfl | rfl⟩ | ⟨_, rfl | stop⟩
    · exact other (guarded (by decide))
    · exact other (guarded (by decide))
    · exact other (guarded (by decide))
    · exact other (marked c stop)
  rw [(walk_part nests).escape guarded known, part_ends ends]
  simp [Functor.map, Except.map]

end Phrasebook.Block
