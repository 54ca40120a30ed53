import Phrasebook.Files

/-!
# Paths beside others

* `Path.Around`: a path as what stands before its last name, the name, and what follows it;
* `Path.parts_around`, `Path.parts_beside`: the parts of a path, and of one with another last name;
* `Path.cutName_eq`, `Path.cutName_extended`: a name is its stem and its extension;
* `Path.extension?_of_parts`: the extension of a path is that of its last part;
* `Path.sibling_cases`, `Path.sibling_eq_ok`: the path with another extension has the path's own
  name just where the path has that extension already.
-/

namespace Phrasebook.Path

variable {s t rest : List Char} {path before name after : String}

/-! ## Cutting -/

theorem dropWhile_ne (mark : Char) (s : List Char) :
    s.dropWhile (· ≠ mark) = [] ∨ ∃ rest, s.dropWhile (· ≠ mark) = mark :: rest := by
  cases found : s.dropWhile (· ≠ mark) with
  | nil => exact .inl rfl
  | cons c rest =>
    have first := List.head?_dropWhile_not (· ≠ mark) s
    rw [found] at first
    obtain rfl : c = mark := by simpa using first
    exact .inr ⟨rest, rfl⟩

theorem splitOn_slash (s t : List Char) :
    (s ++ '/' :: t).splitOn '/' = s.splitOn '/' ++ t.splitOn '/' :=
  List.splitOn_append_cons_self ..

theorem splitOn_name (slashless : '/' ∉ s) : s.splitOn '/' = [s] :=
  List.splitOn_eq_singleton slashless

/-- Nothing but slashes and single dots. -/
def Trailing (s : List Char) : Prop :=
  (s = [] ∨ s.head? = some '/') ∧ ∀ part ∈ s.splitOn '/', part = [] ∨ part = ['.']

theorem trailing_nil : Trailing [] := ⟨.inl rfl, by simp⟩

theorem Trailing.further (trailing : Trailing s) (dot : t = [] ∨ t = ['.']) :
    Trailing (s ++ '/' :: t) := by
  obtain ⟨starts, names⟩ := trailing
  constructor
  · right
    rcases starts with rfl | slash
    · rfl
    · rw [List.head?_append, slash]
      rfl
  · intro part there
    have slashless : '/' ∉ t := by rcases dot with rfl | rfl <;> decide
    rw [splitOn_slash, splitOn_name slashless] at there
    rcases List.mem_append.mp there with there | there
    · exact names part there
    · rw [List.mem_singleton.mp there]
      exact dot

theorem skipTrailing_eq (s : List Char) : skipTrailing s = [] ∨
    ∃ skipped, s = skipped ++ skipTrailing s ∧ Trailing skipped.reverse := by
  fun_induction skipTrailing s with
  | case1 rest ih =>
    refine ih.imp_right fun ⟨skipped, whole, trailing⟩ => ⟨'/' :: skipped, ?_, ?_⟩
    · rw [List.cons_append, ← whole]
    · rw [List.reverse_cons]
      exact trailing.further (.inl rfl)
  | case2 => exact .inl rfl
  | case3 rest ih =>
    refine ih.imp_right fun ⟨skipped, whole, trailing⟩ => ⟨'.' :: '/' :: skipped, ?_, ?_⟩
    · rw [List.cons_append, List.cons_append, ← whole]
    · rw [List.reverse_cons, List.reverse_cons, List.append_assoc]
      exact trailing.further (.inr rfl)
  | case4 s => exact .inr ⟨[], rfl, trailing_nil⟩

theorem skipTrailing_ne_dot (s : List Char) :
    skipTrailing s ≠ ['.'] ∧ ∀ rest, skipTrailing s ≠ '.' :: '/' :: rest := by
  fun_induction skipTrailing s with
  | case1 rest ih => exact ih
  | case2 => simp
  | case3 rest ih => exact ih
  | case4 s _ dot dots => exact ⟨fun same => dot same, fun rest same => dots rest same⟩

/-- A path as a directory, the last name in it, and slashes and single dots behind the name. -/
structure Around (path before name after : String) : Prop where
  whole : path.toList = before.toList ++ name.toList ++ after.toList
  front : before.toList = [] ∨ before.toList.getLast? = some '/'
  slashless : '/' ∉ name.toList
  proper : name ≠ "" ∧ name ≠ "." ∧ name ≠ ".."
  behind : Trailing after.toList

theorem around_of_aroundName? (h : aroundName? path = some (before, name, after)) :
    Around path before name after := by
  unfold aroundName? at h
  dsimp only at h
  split at h
  · cases h
  · next named =>
    obtain ⟨unempty, undoubled⟩ := not_or.mp (mt (Bool.or_eq_true _ _).mpr named)
    simp only [Option.some.injEq, Prod.mk.injEq] at h
    obtain ⟨rfl, rfl, rfl⟩ := h
    generalize kept : skipTrailing path.toList.reverse = rest at *
    rcases skipTrailing_eq path.toList.reverse with none | ⟨skipped, whole, trailing⟩
    · rw [kept] at none
      subst none
      exact absurd (decide_eq_true rfl) unempty
    rw [kept] at whole
    have taken : path.toList.reverse.take (path.toList.reverse.length - rest.length) = skipped := by
      rw [whole, List.length_append, Nat.add_sub_cancel, List.take_left]
    rw [taken]
    have parts : rest.takeWhile (· ≠ '/') ++ rest.dropWhile (· ≠ '/') = rest :=
      List.takeWhile_append_dropWhile
    have slashed := dropWhile_ne '/' rest
    refine ⟨?_, ?_, ?_, ⟨by simpa using unempty, ?_, by simpa using undoubled⟩, ?_⟩
    · simp only [String.toList_ofList]
      calc path.toList = path.toList.reverse.reverse := (List.reverse_reverse _).symm
        _ = (skipped ++ rest).reverse := by rw [whole]
        _ = (rest.takeWhile (· ≠ '/') ++ rest.dropWhile (· ≠ '/')).reverse ++ skipped.reverse := by
          rw [parts, List.reverse_append]
        _ = _ := by rw [List.reverse_append]
    · rw [String.toList_ofList, List.getLast?_reverse, List.reverse_eq_nil_iff]
      refine slashed.imp_right fun ⟨others, slash⟩ => ?_
      rw [slash]
      rfl
    · rw [String.toList_ofList, List.mem_reverse]
      intro slash
      simpa using List.all_eq_true.mp List.all_takeWhile _ slash
    · intro dot
      have dot : rest.takeWhile (· ≠ '/') = ['.'] := by
        simpa using congrArg String.toList dot
      obtain ⟨single, double⟩ := skipTrailing_ne_dot path.toList.reverse
      rw [kept] at single double
      rw [dot] at parts
      rcases slashed with none | ⟨others, slash⟩
      · rw [none] at parts
        exact single parts.symm
      · rw [slash] at parts
        exact double others parts.symm
    · rw [String.toList_ofList]
      exact trailing

/-! ## Names -/

/-- The names of the directories in front of the last name. -/
def dirs (before : String) : List String :=
  (before.toList.splitOn '/').dropLast.map String.ofList

theorem splitOn_front (front : s = [] ∨ s.getLast? = some '/') (t : List Char) :
    (s ++ t).splitOn '/' = (s.splitOn '/').dropLast ++ t.splitOn '/' := by
  rcases front with rfl | slash
  · rfl
  · obtain ⟨dir, rfl⟩ := List.getLast?_eq_some_iff.mp slash
    rw [List.append_assoc, List.singleton_append, splitOn_slash, splitOn_slash]
    simp

theorem parts_beside {other : String}
    (front : before.toList = [] ∨ before.toList.getLast? = some '/')
    (slashless : '/' ∉ other.toList) : parts (before ++ other) = dirs before ++ [other] := by
  rw [parts, String.toList_append, splitOn_front front, splitOn_name slashless, List.map_append]
  simp [dirs]

theorem parts_around (around : Around path before name after) :
    ∃ behind, (∀ part ∈ behind, part = "" ∨ part = ".") ∧
      parts path = dirs before ++ name :: behind := by
  obtain ⟨starts, dots⟩ := around.behind
  rcases starts with none | slash
  · refine ⟨[], by simp, ?_⟩
    rw [parts, around.whole, none, List.append_nil, splitOn_front around.front,
      splitOn_name around.slashless, List.map_append]
    simp [dirs]
  · obtain ⟨rest, whole⟩ := List.head?_eq_some_iff.mp slash
    have cut : after.toList.splitOn '/' = [] :: rest.splitOn '/' := by
      rw [whole]
      exact splitOn_slash [] rest
    refine ⟨(rest.splitOn '/').map String.ofList, ?_, ?_⟩
    · intro part there
      obtain ⟨chars, found, rfl⟩ := List.mem_map.mp there
      rcases dots chars (cut ▸ .tail _ found) with rfl | rfl
      · exact .inl rfl
      · exact .inr rfl
    · rw [parts, around.whole, List.append_assoc, splitOn_front around.front, whole, splitOn_slash,
        splitOn_name around.slashless, List.map_append]
      simp [dirs]

theorem skipTrailing_name (slashless : '/' ∉ s) (filled : s ≠ []) (undotted : s ≠ ['.'])
    (rest : List Char) : skipTrailing (s ++ rest) = s ++ rest := by
  match s with
  | c :: d :: s =>
    have first : c ≠ '/' := fun slash => slashless (slash ▸ List.mem_cons_self)
    have second : d ≠ '/' := fun slash => slashless (by simp [slash])
    rw [List.cons_append, List.cons_append, skipTrailing]
    · exact fun _ same => first (List.cons.inj same).1
    · exact fun same => List.cons_ne_nil _ _ (List.cons.inj same).2
    · exact fun _ same => second (List.cons.inj (List.cons.inj same).2).1
  | [c] =>
    have first : c ≠ '/' := fun slash => slashless (slash ▸ List.mem_cons_self)
    have other : c ≠ '.' := fun dot => undotted (dot ▸ rfl)
    rw [List.singleton_append, skipTrailing]
    · exact fun _ same => first (List.cons.inj same).1
    · exact fun same => other (List.cons.inj same).1
    · exact fun _ same => other (List.cons.inj same).1

/-- What stands behind the last slash is the last part. -/
theorem splitOn_last (s : List Char) : ∃ front,
    s.splitOn '/' = front ++ [(s.reverse.takeWhile (· ≠ '/')).reverse] := by
  have parts := List.takeWhile_append_dropWhile (p := (· ≠ '/')) (l := s.reverse)
  have slashless : '/' ∉ (s.reverse.takeWhile (· ≠ '/')).reverse := by
    intro slash
    simpa using List.all_eq_true.mp List.all_takeWhile _ (List.mem_reverse.mp slash)
  rcases dropWhile_ne '/' s.reverse with none | ⟨others, slash⟩
  · rw [none, List.append_nil] at parts
    refine ⟨[], ?_⟩
    rw [List.nil_append, ← splitOn_name slashless, parts, List.reverse_reverse]
  · have whole : s = others.reverse ++ '/' :: (s.reverse.takeWhile (· ≠ '/')).reverse := by
      rw [slash] at parts
      have turned := congrArg List.reverse parts
      rw [List.reverse_reverse, List.reverse_append, List.reverse_cons, List.append_assoc] at turned
      exact turned.symm
    refine ⟨others.reverse.splitOn '/', ?_⟩
    rw [← splitOn_name slashless, ← splitOn_slash, ← whole]

theorem startsWith_slash (path : String) :
    path.startsWith "/" = true ↔ path.toList.head? = some '/' := by
  rw [String.startsWith_string_iff, List.head?_eq_some_iff]
  constructor
  · rintro ⟨rest, whole⟩
    exact ⟨rest, whole.symm⟩
  · rintro ⟨rest, whole⟩
    exact ⟨rest, whole.symm⟩

theorem startsWith_beside {other : String} (around : Around path before name after)
    (slashless : '/' ∉ other.toList) :
    (before ++ other).startsWith "/" = true ↔ path.startsWith "/" = true := by
  have unslashed {s : List Char} (free : '/' ∉ s) : s.head? ≠ some '/' :=
    fun slash => free (List.mem_of_mem_head? slash)
  rw [startsWith_slash, startsWith_slash, around.whole, String.toList_append]
  cases before.toList with
  | nil =>
    obtain ⟨c, rest, named⟩ := List.exists_cons_of_ne_nil
      (mt String.toList_eq_nil_iff.mp around.proper.1)
    have own := unslashed around.slashless
    rw [named] at own
    rw [List.nil_append, List.nil_append, named, List.cons_append]
    exact iff_of_false (unslashed slashless) own
  | cons c front => simp

/-! ## Stems -/

theorem cutName_eq {stem : String} {ext : Option String} (h : cutName name = (stem, ext)) :
    name = stem ++ ext.elim "" ("." ++ ·) := by
  unfold cutName at h
  dsimp only at h
  split at h
  · cases h
    simp
  · next long =>
    cases h
    have parts := List.takeWhile_append_dropWhile (p := (· ≠ '.')) (l := name.toList.reverse)
    rcases dropWhile_ne '.' name.toList.reverse with none | ⟨rest, dot⟩
    · rw [none] at long
      exact absurd (Nat.zero_le 1) long
    · rw [dot] at parts ⊢
      rw [← String.toList_inj]
      calc name.toList = name.toList.reverse.reverse := (List.reverse_reverse _).symm
        _ = (name.toList.reverse.takeWhile (· ≠ '.') ++ '.' :: rest).reverse := by rw [parts]
        _ = _ := by simp

/-- What follows the last dot of a path's last name. -/
def extension? (path : String) : Option String := do
  let (_, name, _) ← aroundName? path
  (cutName name).2

/-- The last part of a path is its last name, unless it is empty or dots. -/
theorem extension?_of_parts {front : List String} (cut : parts path = front ++ [name])
    (proper : name ≠ "" ∧ name ≠ "." ∧ name ≠ "..") : extension? path = (cutName name).2 := by
  obtain ⟨others, last⟩ := splitOn_last path.toList
  rw [parts, last, List.map_append, List.map_singleton] at cut
  obtain ⟨-, own⟩ := List.append_singleton_inj.mp cut
  have chars : path.toList.reverse.takeWhile (· ≠ '/') = name.toList.reverse := by
    rw [← own, String.toList_ofList, List.reverse_reverse]
  have parts := List.takeWhile_append_dropWhile (p := (· ≠ '/')) (l := path.toList.reverse)
  have kept : skipTrailing path.toList.reverse = path.toList.reverse := by
    rw [← parts]
    refine skipTrailing_name ?_ ?_ ?_ _
    · intro slash
      simpa using List.all_eq_true.mp List.all_takeWhile _ slash
    · rw [chars]
      simpa using proper.1
    · rw [chars]
      intro dot
      have dot := congrArg List.reverse dot
      rw [List.reverse_reverse] at dot
      exact proper.2.1 (String.toList_inj.mp dot)
  rw [extension?, aroundName?]
  dsimp only
  rw [kept, own]
  rw [if_neg (by simp [proper])]
  rfl

/-- A dot and an extension are cut off again. -/
theorem cutName_extended {stem extension : String} (filled : stem ≠ "")
    (dotless : '.' ∉ extension.toList) :
    cutName (stem ++ "." ++ extension) = (stem, some extension) := by
  have turned : (stem ++ "." ++ extension).toList.reverse =
      extension.toList.reverse ++ '.' :: stem.toList.reverse := by
    simp
  have undotted : ∀ c ∈ extension.toList.reverse, decide (c ≠ '.') = true := by
    intro c there
    simp
    rintro rfl
    exact dotless (List.mem_reverse.mp there)
  have before : (extension.toList.reverse ++ '.' :: stem.toList.reverse).dropWhile (· ≠ '.') =
      '.' :: stem.toList.reverse := by
    rw [List.dropWhile_append_of_pos undotted]
    exact List.dropWhile_cons_of_neg (by simp)
  have behind : (extension.toList.reverse ++ '.' :: stem.toList.reverse).takeWhile (· ≠ '.') =
      extension.toList.reverse := by
    rw [List.takeWhile_append_of_pos undotted, List.takeWhile_cons_of_neg (by simp),
      List.append_nil]
  rw [cutName, turned, before, behind, if_neg (by simpa using filled)]
  simp

theorem stem_ne_empty {stem : String} {ext : Option String} (h : cutName name = (stem, ext))
    (filled : name ≠ "") : stem ≠ "" := by
  unfold cutName at h
  dsimp only at h
  split at h
  · cases h
    exact filled
  · next long =>
    obtain ⟨rfl, -⟩ := Prod.mk.inj h
    intro empty
    have short := congrArg String.toList empty
    rw [String.toList_ofList, String.toList_empty, List.reverse_eq_nil_iff] at short
    have few := congrArg List.length short
    rw [List.length_tail, List.length_nil] at few
    omega

/-- The last name of the path beside a path is the path's own just where the extension is. -/
theorem beside_eq_name {stem extension : String} {ext : Option String}
    (h : cutName name = (stem, ext)) :
    stem ++ "." ++ extension = name ↔ ext = some extension := by
  rw [cutName_eq h]
  cases ext with
  | none => simp [← String.toList_inj]
  | some old => simp [← String.toList_inj, eq_comm]

theorem stem_slashless {stem extension : String} {ext : Option String}
    (h : cutName name = (stem, ext)) (free : '/' ∉ name.toList)
    (slashless : '/' ∉ extension.toList) : '/' ∉ (stem ++ "." ++ extension).toList := by
  rw [cutName_eq h, String.toList_append] at free
  simp only [String.toList_append, List.mem_append, not_or]
  exact ⟨⟨fun there => free (List.mem_append_left _ there), by decide⟩, slashless⟩

/-- The path beside another has another extension, or leads to a parent. -/
theorem sibling_cases {extension cache : String} (h : sibling path extension = .ok cache)
    (extended : extension ≠ "") : ∃ before name after stem ext, Around path before name after ∧
      cutName name = (stem, ext) ∧ extension? path = ext ∧
      (cache = before ++ ".." ∨ cache = before ++ (stem ++ "." ++ extension)) := by
  unfold sibling at h
  split at h
  · cases h
  · next before name after found =>
    have own : extension? path = (cutName name).2 := by rw [extension?, found]; rfl
    cases cut : cutName name with
    | mk stem ext =>
      rw [cut] at h own
      refine ⟨before, name, after, stem, ext, around_of_aroundName? found, cut, own, ?_⟩
      dsimp only at h
      split at h
      · exact .inl (Except.ok.inj h).symm
      · right
        rw [← Except.ok.inj h, String.append_assoc, String.append_assoc, String.append_assoc]

theorem sibling_eq_ok {extension cache : String} (h : sibling path extension = .ok cache)
    (extended : extension ≠ "") (slashless : '/' ∉ extension.toList) :
    ∃ before name after, Around path before name after ∧
      (cache = before ++ ".." ∨ ∃ other, cache = before ++ other ∧ '/' ∉ other.toList ∧
        (other = name ↔ extension? path = some extension)) := by
  obtain ⟨before, name, after, stem, ext, around, cut, own, beside⟩ := sibling_cases h extended
  refine ⟨before, name, after, around, beside.imp_right fun same => ⟨_, same, ?_, ?_⟩⟩
  · exact stem_slashless cut around.slashless slashless
  · rw [own]
    exact beside_eq_name cut

end Phrasebook.Path
