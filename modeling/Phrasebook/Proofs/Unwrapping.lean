import Mathlib
import Phrasebook.Proofs.Calls
import Phrasebook.Proofs.Produced
import Phrasebook.Proofs.Tally

/-!
# Plain groups

A group without modifiers can be left out: its pieces can stand in its place, at any depth of a
rule. This comes from what all walks have in common. They go from piece to piece, and join what the
pieces give by an operation that may be bracketed in any way.

* `Fragment.append_assoc`, `Combinations.times_assoc`, `combine_assoc`: the three operations, each
  with something that changes nothing;
* `Piecewise`: what is taken from a walk. `Piecewise.append`: pieces after one another are walked
  after one another; `Piecewise.unwraps`: so plain groups make no difference;
* `expandPieces_piecewise`, `expandPiecesAt_piecewise`, `countPieces_piecewise`,
  `listPieces_piecewise`: every walk is one of these;
* `unwraps_alike`: rules that differ by a plain group are expanded, counted and listed alike.

Mathlib is imported whole: the run at the end is evaluated with equations from all over it.
-/

namespace Phrasebook

/-! ## What is joined -/

theorem joinTexts_eq_empty {a b : String} : joinTexts a b = "" ↔ a = "" ∧ b = "" := by
  by_cases first : a = ""
  · simp [first, empty_joinTexts]
  by_cases second : b = ""
  · simp [second, joinTexts_empty]
  · have some : joinTexts a b ≠ "" := by
      intro none
      have letters := toList_joinTexts first second
      simp [none] at letters
    simp [some, first]

/-- A space stands between two texts that are not empty, whichever of them were joined first. -/
theorem joinTexts_assoc (a b c : String) :
    joinTexts (joinTexts a b) c = joinTexts a (joinTexts b c) := by
  by_cases first : a = ""
  · simp [first, empty_joinTexts]
  by_cases second : b = ""
  · simp [second, joinTexts_empty, empty_joinTexts]
  by_cases third : c = ""
  · simp [third, joinTexts_empty]
  have left : joinTexts a b ≠ "" := by simp [joinTexts_eq_empty, first]
  have right : joinTexts b c ≠ "" := by simp [joinTexts_eq_empty, second]
  apply String.toList_inj.mp
  simp [toList_joinTexts, *]

theorem Fragment.append_assoc (f g h : Fragment) :
    (f.append g).append h = f.append (g.append h) := by
  simp [append, joinTexts_assoc]

theorem Fragment.empty_append (f : Fragment) : append {} f = f := by
  simp [append, empty_joinTexts]

namespace Combinations

theorem times_assoc (a b c : Combinations) : (a.times b).times c = a.times (b.times c) := by
  cases a <;> cases b <;> cases c <;> try rfl
  next a b c =>
    have left := capped_times (a.toNat * b.toNat) c.toNat
    have right := capped_times a.toNat (b.toNat * c.toNat)
    rw [capped_toNat] at left right
    simp only [times, left, right, Nat.mul_assoc]

theorem one_times (c : Combinations) : (finite 1).times c = c := by
  cases c <;> simp [times, capped_toNat]

theorem times_one (c : Combinations) : c.times (finite 1) = c := by
  cases c <;> simp [times, capped_toNat]

end Combinations

namespace Store

theorem combine_assoc (a b c : List Fragment) :
    combine (combine a b) c = combine a (combine b c) := by
  have behind (f g : Fragment) : (f.append g).append = f.append ∘ g.append := by
    funext h
    exact f.append_assoc g h
  simp [combine, List.flatMap_assoc, List.flatMap_map, List.map_flatMap, behind]

theorem one_combine (l : List Fragment) : combine [{}] l = l := by
  have same : Fragment.append {} = id := funext Fragment.empty_append
  simp [combine, same]

theorem combine_one (l : List Fragment) : combine l [{}] = l := by
  simp [combine, Fragment.append_empty]

end Store

/-! ## From piece to piece -/

/-- A plain group among the pieces, or inside a group among them, gives way to its pieces. -/
inductive Piece.Unwraps : List Piece → List Piece → Prop
  | here {before inside after value} :
      Unwraps (before ++ .group inside value {} :: after) (before ++ inside ++ after)
  | deeper {before inside unwrapped after value m} (there : Unwraps inside unwrapped) :
      Unwraps (before ++ .group inside value m :: after)
        (before ++ .group unwrapped value m :: after)

section
variable {M : Type → Type} [Monad M] {α : Type}

/-- A walk from piece to piece that joins what they give, and goes into a plain group as if its
pieces stood there. What another group gives depends on its pieces only by what they give. -/
structure Piecewise (one : α) (join : α → α → α) (piece : Piece → M α)
    (pieces : List Piece → M α) : Prop where
  join_assoc : ∀ a b c, join (join a b) c = join a (join b c)
  one_join : ∀ a, join one a = a
  join_one : ∀ a, join a one = a
  nil : pieces [] = pure one
  cons : ∀ p rest, pieces (p :: rest) = do return join (← piece p) (← pieces rest)
  plain : ∀ inside value, piece (.group inside value {}) = pieces inside
  group : ∀ inside other value m, pieces inside = pieces other →
    piece (.group inside value m) = piece (.group other value m)

variable [LawfulMonad M] {one : α} {join : α → α → α} {piece : Piece → M α}
  {pieces : List Piece → M α}

theorem Piecewise.append (walk : Piecewise one join piece pieces) (first others : List Piece) :
    pieces (first ++ others) = do return join (← pieces first) (← pieces others) := by
  induction first with
  | nil => simp only [List.nil_append, walk.nil, pure_bind, walk.one_join, bind_pure]
  | cons p rest ih =>
    simp only [List.cons_append, walk.cons, ih, bind_assoc, pure_bind, walk.join_assoc]

theorem Piecewise.unwraps (walk : Piecewise one join piece pieces) {wrapped unwrapped : List Piece}
    (h : Piece.Unwraps wrapped unwrapped) : pieces wrapped = pieces unwrapped := by
  induction h with
  | here =>
    simp only [walk.append, walk.cons, walk.plain, bind_assoc, pure_bind, walk.join_assoc]
  | deeper _ ih => simp [walk.append, walk.cons, walk.group _ _ _ _ ih]

end

namespace Store

variable {s : Store} {trail : Trail}

/-! ## Expanding -/

/-- A run as steps that change the pass. -/
def asSteps (run : Pass → Outcome Fragment × Pass) : Steps Pass Fragment :=
  ExceptT.mk fun pass => some (run pass)

theorem expandPieces_piecewise (s : Store) (trail : Trail) :
    Piecewise {} Fragment.append (fun p => asSteps (s.expandPiece trail p))
      fun ps => asSteps (s.expandPieces trail ps) where
  join_assoc := Fragment.append_assoc
  one_join := Fragment.empty_append
  join_one := Fragment.append_empty
  nil := by
    funext pass
    exact congrArg some (expandPieces_nil pass)
  cons p rest := by
    funext pass
    rcases first : s.expandPiece trail p pass with ⟨e | f, next⟩
    · have fails : (asSteps (s.expandPiece trail p)).on pass = some (.error e, next) :=
        congrArg some first
      refine Eq.trans ?_ (Steps.on_bind_error fails).symm
      exact congrArg some (expandPieces_error first)
    · have succeeds : (asSteps (s.expandPiece trail p)).on pass = some (.ok f, next) :=
        congrArg some first
      refine Eq.trans ?_ (Steps.on_bind_ok succeeds).symm
      rcases others : s.expandPieces trail rest next with ⟨e | g, last⟩
      · have fails : (asSteps (s.expandPieces trail rest)).on next = some (.error e, last) :=
          congrArg some others
        refine Eq.trans ?_ (Steps.on_bind_error fails).symm
        exact congrArg some (expandPieces_cons first others)
      · have succeeds : (asSteps (s.expandPieces trail rest)).on next = some (.ok g, last) :=
          congrArg some others
        refine Eq.trans ?_ (Steps.on_bind_ok succeeds).symm
        exact congrArg some (expandPieces_cons first others)
  plain inside value := by
    funext pass
    apply congrArg some
    have taken : pass.includes {} = (true, pass) := rfl
    rcases body : s.expandPieces trail inside pass with ⟨e | f, last⟩
    · rw [expandPiece_group taken body]
    · rw [expandPiece_group taken body]
      simp [Pass.casing, Fragment.recase_asWritten]
  group inside other value m same := by
    have alike : s.expandPieces trail inside = s.expandPieces trail other :=
      funext fun pass => Option.some.inj (congrFun same pass)
    funext pass
    apply congrArg some
    rw [expandPiece, expandPiece, alike]

theorem expandPiecesAt_piecewise (s : Store) (depth : Nat) :
    Piecewise {} Fragment.append (s.expandPieceAt depth) (s.expandPiecesAt depth) where
  join_assoc := Fragment.append_assoc
  one_join := Fragment.empty_append
  join_one := Fragment.append_empty
  nil := by rw [expandPiecesAt]
  cons p rest := by rw [expandPiecesAt]
  plain inside value := by
    funext c
    rw [expandPieceAt]
    have taken : Context.includes {} c = (true, c) := rfl
    refine (Steps.on_choice taken).trans ?_
    rw [if_pos rfl]
    -- no word is taken for the casing either, so that the context stays as the pieces leave it
    have whole := congrArg (Steps.on · c) (bind_pure (s.expandPiecesAt depth inside))
    refine Eq.trans (Steps.on_bind_alike rfl fun f later _ => ?_) whole
    have cased : Context.casing false later = (.asWritten, later) := rfl
    rw [Steps.on_choice cased, Fragment.recase_asWritten]
  group inside other value m same := by rw [expandPieceAt, expandPieceAt, same]

/-! ## Counting and listing -/

theorem countPieces_piecewise (s : Store) (trail : Trail) :
    Piecewise (.finite 1) Combinations.times (s.countPiece trail) (s.countPieces trail) where
  join_assoc := Combinations.times_assoc
  one_join := Combinations.one_times
  join_one := Combinations.times_one
  nil := countPieces_nil
  cons := countPieces_cons
  plain inside value := countPiece_group rfl
  group inside other value m same := by
    rw [countPiece, countPiece, same]
    rfl

theorem listPieces_piecewise (s : Store) (trail : Trail) :
    Piecewise [{}] combine (s.listPiece trail) (s.listPieces trail) where
  join_assoc := combine_assoc
  one_join := one_combine
  join_one := combine_one
  nil := listPieces_nil
  cons := listPieces_cons
  plain inside value := listPiece_group rfl
  group inside other value m same := by
    rw [listPiece, listPiece, same]
    rfl

/-- **Plain groups make no difference.** A rule, and the same one with a plain group around some of
its pieces, at any depth, expand to the same fragment, or fail with the same error, with the same
words taken, and leave the same context behind. On every trail their counts are the same, and so are
their listings, in the same order. -/
theorem unwraps_alike (s : Store) {wrapped unwrapped : Rule}
    (h : Piece.Unwraps wrapped.pieces unwrapped.pieces) :
    (∀ trail pass, s.expandRule trail wrapped pass = s.expandRule trail unwrapped pass) ∧
      (∀ c, (s.expandRuleIn wrapped).on c = (s.expandRuleIn unwrapped).on c) ∧
      (∀ trail, s.countRule trail wrapped = s.countRule trail unwrapped) ∧
      ∀ trail, s.listRule trail wrapped = s.listRule trail unwrapped := by
  refine ⟨fun trail pass => ?expand, fun c => ?inPlace, fun trail => ?count, fun trail => ?list⟩
  case expand =>
    have same := (s.expandPieces_piecewise trail).unwraps h
    exact Option.some.inj (congrFun same pass)
  case inPlace => simp only [expandRuleIn, (s.expandPiecesAt_piecewise _).unwraps h]
  case count => exact (s.countPieces_piecewise trail).unwraps h
  case list => exact (s.listPieces_piecewise trail).unwraps h

/-- A plain group with a reference in it, inside of a random one. -/
theorem unwraps_alike_greeting : ∃ (s : Store) (wrapped unwrapped : Rule),
    Piece.Unwraps wrapped.pieces unwrapped.pieces ∧
      (∀ trail pass, s.expandRule trail wrapped pass = s.expandRule trail unwrapped pass) ∧
      (∀ c, (s.expandRuleIn wrapped).on c = (s.expandRuleIn unwrapped).on c) ∧
      s.countRule [] wrapped = .ok (.finite 2) ∧
      s.listRule [] wrapped = .ok [⟨"oh dear you there", []⟩, ⟨"oh dear all there", []⟩] := by
  let who : Definition := ⟨"who", .alias, false,
    [⟨none, none, [⟨[.word "you"], none⟩, ⟨[.word "all"], none⟩]⟩]⟩
  let s : Store := ⟨⟨[("who", who)], by decide⟩, ∅, ∅⟩
  let inside : List Piece := [.reference .alias "who" {}, .word "there"]
  let some30 : Modifiers := { group := some "g", percent := some 30 }
  let plain : Piece := .group inside none {}
  let wrapped : Rule := ⟨[.word "oh", .group [.word "dear", plain] none some30], none⟩
  let unwrapped : Rule := ⟨[.word "oh", .group (.word "dear" :: inside) none some30], none⟩
  have there : Piece.Unwraps wrapped.pieces unwrapped.pieces :=
    @Piece.Unwraps.deeper [.word "oh"] _ _ [] none some30
      (@Piece.Unwraps.here [.word "dear"] inside [] none)
  obtain ⟨expand, inPlace, count, list⟩ := unwraps_alike s there
  have counted : s.countRule [] unwrapped = .ok (.finite 2) := by cbv
  have listed : s.listRule [] unwrapped =
    .ok [⟨"oh dear you there", []⟩, ⟨"oh dear all there", []⟩] := by cbv
  exact ⟨s, wrapped, unwrapped, there, expand, inPlace, (count []).trans counted,
    (list []).trans listed⟩

end Store

end Phrasebook
