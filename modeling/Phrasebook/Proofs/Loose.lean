import Phrasebook.Proofs.Reading

/-!
# Characters between the blocks

The words that a text is read as are made of what stands in it outside of brackets: of characters
that are escaped there, and of others that are no blanks.

* `Loose`: what is known of these characters of a text;
* `Reads.loose`: the same is then known of the words the text is read as;
* `Balanced.loose`, `part_loose`: where this comes from, for a whole text and for the body of a
  group.
-/

namespace Phrasebook

namespace Text

/-- What can become part of a word is `good`: outside of brackets, everything but unescaped
blanks. -/
def Loose (good : Char → Prop) : Nat → List Char → Prop
  | _, [] => True
  | depth, '\\' :: c :: rest => (depth = 0 → good c) ∧ Loose good depth rest
  | depth, c :: rest =>
    (depth = 0 → isBlank c = false → good c) ∧ Loose good (depthAfter c depth) rest

variable {good e p : Char → Prop} {s t : List Char} {depth : Nat} {c : Char}

theorem loose_cons (alone : c = '\\' → t = []) :
    Loose good depth (c :: t) ↔
      (depth = 0 → isBlank c = false → good c) ∧ Loose good (depthAfter c depth) t := by
  rw [Loose]
  intro d rest same more
  simp [alone same] at more

theorem loose_append_left (escape : good '\\') (h : Loose good depth (s ++ t)) :
    Loose good depth s := by
  fun_induction Loose good depth s with
  | case1 => trivial
  | case2 depth c rest ih => exact ⟨h.1, ih h.2⟩
  | case3 depth c rest alone ih =>
    by_cases same : c = '\\'
    · obtain rfl := last_of_alone alone same
      exact ⟨fun _ _ => same ▸ escape, trivial⟩
    · rw [List.cons_append, loose_cons fun h => absurd h same] at h
      exact ⟨h.1, ih h.2⟩

theorem loose_trimEnd (escape : good '\\') (h : Loose good depth s) :
    Loose good depth (trimEnd s) := by
  obtain ⟨t, whole⟩ := prefix_trimEnd s
  rw [← whole] at h
  exact loose_append_left escape h

theorem loose_trimStart (h : Loose good 0 s) : Loose good 0 (trimStart s) := by
  induction s with
  | nil => exact h
  | cons c rest ih =>
    cases blank : isBlank c with
    | false => rwa [trimStart_cons blank]
    | true =>
      obtain ⟨opens, closes, unescaped⟩ := ordinary_of_isBlank blank
      rw [loose_cons fun same => absurd same unescaped, depthAfter_of_ne opens closes] at h
      rw [trimStart_cons_blank blank]
      exact ih h.2

theorem loose_of_throughClosing? {inner after : List Char}
    (closes : throughClosing? depth s = some (inner, after)) (h : Loose good (depth + 1) s) :
    Loose good 0 after := by
  fun_induction throughClosing? depth s generalizing inner after with
  | case1 => cases closes
  | case2 depth c rest ih =>
    obtain ⟨⟨a, b⟩, found, same⟩ := Option.map_eq_some_iff.mp closes
    cases same
    exact ih found h.2
  | case3 depth c rest alone here =>
    cases closes
    have closing : c = ']' ∧ depth = 0 := by simpa using here
    rw [loose_cons fun same => absurd (closing.1.symm.trans same) (by decide)] at h
    simpa [closing, depthAfter] using h.2
  | case4 depth c rest alone passes ih =>
    obtain ⟨⟨a, b⟩, found, same⟩ := Option.map_eq_some_iff.mp closes
    cases same
    have later := ((loose_cons (last_of_alone alone)).mp h).2
    rw [depthAfter_succ (by simpa using passes)] at later
    exact ih found later

/-- Inside of brackets balanced text has no say in it. -/
theorem loose_deep (balanced : Balanced e p s) (t : List Char) :
    Loose good (depth + 1) (s ++ t) ↔ Loose good (depth + 1) t := by
  induction balanced generalizing depth t with
  | nil => rfl
  | escaped _ _ ih => simp [Loose, ih]
  | plain unescaped opens closes _ _ ih =>
    rw [List.cons_append, loose_cons fun same => absurd same unescaped,
      depthAfter_of_ne opens closes, ih]
    simp
  | nested _ _ within ih =>
    have entered : depthAfter '[' (depth + 1) = depth + 1 + 1 := rfl
    have left : depthAfter ']' (depth + 1 + 1) = depth + 1 := rfl
    rw [List.cons_append, List.append_assoc, List.cons_append,
      loose_cons (fun same => absurd same (by decide)), entered, within,
      loose_cons (fun same => absurd same (by decide)), left, ih]
    simp

theorem loose_nested (opens : good '[') (balanced : Balanced e p s) (h : Loose good 0 t) :
    Loose good 0 ('[' :: (s ++ ']' :: t)) := by
  have entered : depthAfter '[' 0 = 0 + 1 := rfl
  have left : depthAfter ']' (0 + 1) = 0 := rfl
  rw [loose_cons fun same => absurd same (by decide), entered, loose_deep balanced,
    loose_cons fun same => absurd same (by decide), left]
  exact ⟨fun _ _ => opens, by simp, h⟩

theorem Balanced.loose (opens : good '[') (balanced : Balanced e p s) (he : ∀ c, e c → good c)
    (hp : ∀ c, p c → isBlank c = false → good c) : Loose good 0 s := by
  induction balanced with
  | nil => trivial
  | escaped known _ ih => exact ⟨fun _ => he _ known, ih he hp⟩
  | plain unescaped opens closes known _ ih =>
    rw [loose_cons fun same => absurd same unescaped, depthAfter_of_ne opens closes]
    exact ⟨fun _ => hp _ known, ih he hp⟩
  | nested inside _ _ ih => exact loose_nested opens inside (ih he hp)

end Text

namespace Block

open Text

/-- The part of a balanced text that a group takes as its body ends before the first stop. -/
theorem part_loose {good e p : Char → Prop} {s t raw after : List Char} (opens : good '[')
    (balanced : Balanced e p s) (he : ∀ c, e c → good c)
    (hp : ∀ c, p c → isStop c = false → isBlank c = false → good c) (ends : Ends t)
    (read : part true 0 (s ++ t) = .ok (raw, after)) : Loose good 0 raw := by
  induction balanced generalizing raw after with
  | nil =>
    rw [List.nil_append, part_ends ends] at read
    cases read
    trivial
  | escaped known _ ih =>
    rw [List.cons_append, List.cons_append, (walk_part true).escaped] at read
    obtain ⟨⟨rest, _⟩, further, same⟩ := map_eq_ok.mp read
    cases same
    exact ⟨fun _ => he _ known, ih he hp further⟩
  | @plain _ _ c _ unescaped opens closes known _ ih =>
    cases stop : isStop c with
    | true =>
      rw [List.cons_append, part_ends (by simpa [Ends] using stop)] at read
      cases read
      trivial
    | false =>
      rw [List.cons_append, (walk_part true).passed _ _ _ unescaped (by simp [closes, stop]),
        depthAfter_of_ne opens closes] at read
      obtain ⟨⟨rest, _⟩, further, same⟩ := map_eq_ok.mp read
      cases same
      rw [loose_cons fun same => absurd same unescaped, depthAfter_of_ne opens closes]
      exact ⟨fun _ => hp _ known stop, ih he hp further⟩
  | @nested _ _ inner rest inside _ _ ih =>
    -- a stop in the brackets ends nothing, and so all of them belongs to the part
    have whole : Balanced (fun _ => True) (fun _ => False) ('[' :: (inner ++ ']' :: [])) :=
      .nested inside .nil
    have front : '[' :: (inner ++ ']' :: rest) ++ t =
        '[' :: (inner ++ ']' :: []) ++ (rest ++ t) := by
      simp
    rw [front, (walk_part true).balanced (by simp) whole (by decide) (by simp)] at read
    obtain ⟨⟨rest, _⟩, further, same⟩ := map_eq_ok.mp read
    cases same
    rw [List.cons_append, List.append_assoc, List.singleton_append]
    exact loose_nested opens inside (ih he hp further)

end Block

open Text

theorem loose_of_opening? {good : Char → Prop} {s marks inside : List Char}
    (opens : opening? s = some (marks, inside)) (h : Loose good 0 s) : Loose good 1 inside := by
  have entered : depthAfter '[' 0 = 1 := rfl
  unfold opening? at opens
  split at opens
  · cases opens
    rw [loose_cons fun same => absurd same (by decide), entered] at h
    exact h.2
  · next c rest _ =>
    split at opens
    · next sigil =>
      cases opens
      have other : ∀ d, Kind.ofSigil? d = none → c ≠ d := fun d none same => by
        simp [same, none] at sigil
      rw [loose_cons fun same => absurd same (other '\\' (by decide)),
        depthAfter_of_ne (other '[' (by decide)) (other ']' (by decide)),
        loose_cons fun same => absurd same (by decide), entered] at h
      exact h.2.2
    · cases opens
  · cases opens

theorem mem_flush {word : List Char} {pieces : List Piece} {text : String}
    (h : Piece.word text ∈ flush word pieces) :
    text.toList = word.reverse ∨ Piece.word text ∈ pieces := by
  unfold flush at h
  split at h
  · exact .inr h
  · rcases List.mem_cons.mp h with same | before
    · cases same
      exact .inl String.toList_ofList
    · exact .inr before

theorem Reads.loose {good : Char → Prop} {word s : List Char} {pieces : List Piece}
    (h : Reads word s pieces) (begun : ∀ c ∈ word, good c) (loose : Loose good 0 s) :
    ∀ text, Piece.word text ∈ pieces → ∀ c ∈ text.toList, good c := by
  have flushed : ∀ {word : List Char} {pieces : List Piece}, (∀ c ∈ word, good c) →
      (∀ text, Piece.word text ∈ pieces → ∀ c ∈ text.toList, good c) →
      ∀ text, Piece.word text ∈ flush word pieces → ∀ c ∈ text.toList, good c := by
    intro word pieces begun later text known c hc
    rcases mem_flush known with same | before
    · rw [same] at hc
      exact begun c (List.mem_reverse.mp hc)
    · exact later text before c hc
  induction h with
  | nil => exact flushed begun fun _ none => absurd none List.not_mem_nil
  | escaped _ ih =>
    refine ih (fun c hc => ?_) loose.2
    rcases List.mem_cons.mp hc with rfl | hc
    · exact loose.1 rfl
    · exact begun c hc
  | reference opens closes _ _ _ ih =>
    have after := loose_of_throughClosing? closes (loose_of_opening? opens loose)
    refine flushed begun fun text known => ?_
    rcases List.mem_cons.mp known with same | later
    · cases same
    · exact ih (by simp) after text later
  | group opens closes _ _ _ _ _ _ ih =>
    have after := loose_of_throughClosing? closes (loose_of_opening? opens loose)
    refine flushed begun fun text known => ?_
    rcases List.mem_cons.mp known with same | later
    · cases same
    · exact ih (by simp) after text later
  | @blank _ c rest _ closed blank _ ih =>
    obtain ⟨opens, closes, unescaped⟩ := ordinary_of_isBlank blank
    rw [loose_cons fun same => absurd same unescaped, depthAfter_of_ne opens closes] at loose
    exact flushed begun (ih (by simp) loose.2)
  | @char _ c rest _ alone closed visible inside _ ih =>
    have opens : c ≠ '[' := by
      rintro rfl
      cases closed
    rw [loose_cons alone, depthAfter_of_ne opens inside] at loose
    refine ih (fun d hd => ?_) loose.2
    rcases List.mem_cons.mp hd with rfl | hd
    · exact loose.1 rfl visible
    · exact begun d hd

end Phrasebook
