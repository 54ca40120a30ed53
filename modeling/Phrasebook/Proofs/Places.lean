import Phrasebook.Proofs.Overwriting

/-!
# Places of paths

Nothing but the current directory decides where a path leads, if it leads anywhere. So it can be
said of a whole run which paths are the same file.

* `Files.place`: where a path leads, and `place_of_locate`, `place_of_destination`;
* `Files.Rewrites`: what is changed by writing a file, and `rewrites_of_write`;
* `Files.SameFiles`: no file was changed, and `sameFiles_createDirectories`;
* `Files.Rooted`: all that is there is in a directory, and stays so: `Rewrites.rooted`;
* `Files.place_sibling`: where the path with another extension leads.
-/

namespace Phrasebook

namespace Path

/-- Where a part of a path leads from a place. -/
def onward (p : Place) (part : String) : Place :=
  if part = "" ∨ part = "." then p else if part = ".." then p.tail else part :: p

def follow (p : Place) (parts : List String) : Place := parts.foldl onward p

variable {p : Place} {name : String} {parts : List String}

theorem follow_append (p : Place) (front behind : List String) :
    follow p (front ++ behind) = follow (follow p front) behind :=
  List.foldl_append

theorem onward_name (proper : name ≠ "" ∧ name ≠ "." ∧ name ≠ "..") :
    onward p name = name :: p := by
  rw [onward, if_neg (not_or.mpr ⟨proper.1, proper.2.1⟩), if_neg proper.2.2]

theorem follow_name (proper : name ≠ "" ∧ name ≠ "." ∧ name ≠ "..") (front : List String) :
    follow p (front ++ [name]) = name :: follow p front := by
  rw [follow_append]
  exact onward_name proper

theorem follow_dots (dots : ∀ part ∈ parts, part = "" ∨ part = ".") : follow p parts = p := by
  induction parts with
  | nil => rfl
  | cons part parts ih =>
    have stays : onward p part = p := if_pos (dots part List.mem_cons_self)
    rw [follow, List.foldl_cons, stays]
    exact ih fun other there => dots other (List.mem_cons_of_mem part there)

end Path

namespace Files

variable {fs after : Files} {p q r : Place} {path part name : String} {content : List UInt8}
  {t : Nat}

/-- Where a path leads, if anything is there. -/
def place (fs : Files) (path : String) : Place := Path.follow (fs.start path) (Path.parts path)

theorem onward_of_step (h : fs.step p part = .ok q) : Path.onward p part = q := by
  unfold step at h
  unfold Path.onward
  split at h
  · split at h
    · next dot =>
      rw [if_pos (by simpa using dot)]
      exact Except.ok.inj h
    · next undotted =>
      rw [if_neg (by simpa using undotted)]
      split at h
      · next double =>
        rw [if_pos double]
        exact Except.ok.inj h
      · next single =>
        rw [if_neg single]
        split at h
        · cases h
        · split at h
          · exact Except.ok.inj h
          · cases h
  · cases h
  · cases h

theorem follow_of_walk {parts : List String} (h : fs.walk p parts = .ok q) :
    Path.follow p parts = q := by
  induction parts generalizing p with
  | nil => exact Except.ok.inj h
  | cons part parts ih =>
    rw [walk, List.foldlM_cons] at h
    obtain ⟨next, first, later⟩ := bind_eq_ok.mp h
    rw [Path.follow, List.foldl_cons, onward_of_step first]
    exact ih later

theorem place_of_locate (h : fs.locate path = .ok p) : fs.place path = p := by
  obtain ⟨-, -, walked⟩ := bind_eq_ok.mp h
  exact follow_of_walk walked

/-- The path is a single name. -/
structure Single (path : String) : Prop where
  checked : checkPath path = .ok ()
  proper : path ≠ "" ∧ path ≠ "." ∧ path ≠ ".."
  slashless : '/' ∉ path.toList
  short : path.utf8ByteSize ≤ maxName

theorem Single.parts (single : Single name) : Path.parts name = [name] := by
  rw [Path.parts, Path.splitOn_name single.slashless, List.map_singleton, String.ofList_toList]

theorem Single.start (single : Single name) : fs.start name = fs.current := by
  rw [Files.start, if_neg]
  rw [Path.startsWith_slash]
  exact fun slash => single.slashless (List.mem_of_mem_head? slash)

theorem Single.place (single : Single name) : fs.place name = name :: fs.current := by
  rw [Files.place, single.parts, single.start]
  exact Path.onward_name single.proper

theorem Single.locate {now : Nat} (single : Single name)
    (directory : fs.get? fs.current = some (.directory now))
    (there : (fs.get? (name :: fs.current)).isSome) :
    fs.locate name = .ok (name :: fs.current) := by
  refine bind_eq_ok.mpr ⟨(), single.checked, ?_⟩
  rw [single.parts, single.start, walk_singleton]
  exact (step_name single.proper).mpr ⟨rfl, ⟨now, directory⟩, single.short, there⟩

theorem Single.missing {now : Nat} (single : Single name)
    (directory : fs.get? fs.current = some (.directory now))
    (absent : fs.get? (name :: fs.current) = none) : fs.find name = .error .notFound := by
  obtain ⟨filled, undotted, undoubled⟩ := single.proper
  have located : fs.locate name = .error .notFound := by
    rw [Files.locate, single.checked]
    change fs.walk (fs.start name) (Path.parts name) = _
    rw [single.parts, single.start, walk_singleton, step, directory]
    simp [filled, undotted, undoubled, Nat.not_lt.mpr single.short, absent]
  rw [find, located]
  rfl

theorem Single.slot {now : Nat} (single : Single name)
    (directory : fs.get? fs.current = some (.directory now)) :
    fs.slot name = .ok (fs.current, some name, false) := by
  have cut : Path.parts name = [] ++ [name] := single.parts
  exact slot_name single.checked cut single.proper (congrArg Except.ok single.start) directory

theorem place_of_slot (h : fs.slot path = .ok (p, some name, false)) :
    fs.place path = name :: p := by
  obtain ⟨-, proper, -, front, cut, walked⟩ := slot_eq_ok h
  rw [place, cut, Path.follow_name proper, follow_of_walk walked]

theorem place_of_destination {old : Option (List UInt8)}
    (h : fs.destination path = .ok (p, name, old)) : fs.place path = name :: p :=
  place_of_slot (destination_eq_ok h).1

theorem place_congr (same : after.current = fs.current) (path : String) :
    after.place path = fs.place path := by
  rw [place, place, start, start, same]

/-! ## Writing -/

/-- What is at the place is as it was, up to the time of a directory. -/
def Keeps (fs after : Files) (place : Place) : Prop :=
  after.get? place = fs.get? place ∨
    ∃ t t', fs.get? place = some (.directory t) ∧ after.get? place = some (.directory t')

theorem Keeps.file (keeps : fs.Keeps after r) :
    after.get? r = some (.file content t) ↔ fs.get? r = some (.file content t) := by
  rcases keeps with same | ⟨_, _, first, later⟩
  · rw [same]
  · simp [first, later]

theorem Keeps.directory (keeps : fs.Keeps after r) :
    (∃ t, after.get? r = some (.directory t)) ↔ ∃ t, fs.get? r = some (.directory t) := by
  rcases keeps with same | ⟨_, _, first, later⟩
  · rw [same]
  · simp [first, later]

theorem Keeps.isSome (keeps : fs.Keeps after r) :
    (after.get? r).isSome = (fs.get? r).isSome := by
  rcases keeps with same | ⟨_, _, first, later⟩
  · rw [same]
  · rw [first, later]
    rfl

/-- Only the file at the place was changed, and it is now the last that was. It is in a directory,
and is none. What could be read still can. -/
structure Rewrites (fs : Files) (place : Place) (content : List UInt8) (after : Files) : Prop where
  current : after.current = fs.current
  mayRead : ∀ p, fs.mayRead p = true → after.mayRead p = true
  clock : after.clock = fs.clock + 1
  file : after.get? place = some (.file content after.clock)
  others : ∀ other ≠ place, fs.Keeps after other
  inside : ∃ name p t, place = name :: p ∧ fs.get? p = some (.directory t)
  free : ∀ t, fs.get? place ≠ some (.directory t)

/-- No file was changed. -/
structure SameFiles (fs after : Files) : Prop where
  current : after.current = fs.current
  files : ∀ place content t,
    after.get? place = some (.file content t) ↔ fs.get? place = some (.file content t)

theorem SameFiles.refl (fs : Files) : fs.SameFiles fs := ⟨rfl, fun _ _ _ => .rfl⟩

theorem SameFiles.trans {later : Files} (first : fs.SameFiles after)
    (second : after.SameFiles later) : fs.SameFiles later :=
  ⟨second.current.trans first.current,
    fun place content t => (second.files place content t).trans (first.files place content t)⟩

/-- What is written where nothing is yet becomes a new entry. -/
theorem write_new (slot : fs.slot path = .ok (p, some name, false))
    (short : name.utf8ByteSize ≤ maxName) (absent : fs.get? (name :: p) = none)
    (may : fs.mayWrite p = true) :
    fs.write path content = .ok (fs.create p name (.file content)) := by
  have found : fs.destination path = .ok (p, name, none) := by
    refine bind_eq_ok.mpr ⟨_, slot, ?_⟩
    dsimp only
    rw [if_neg (Nat.not_lt.mpr short), absent]
  exact update_eq_ok.mpr ⟨p, name, none, found, may, rfl⟩

theorem Single.write {now : Nat} (single : Single name)
    (directory : fs.get? fs.current = some (.directory now))
    (absent : fs.get? (name :: fs.current) = none) (may : fs.mayWrite fs.current = true) :
    fs.write name content = .ok (fs.create fs.current name (.file content)) :=
  write_new (single.slot directory) single.short absent may

/-- A new entry leaves the others as they are, but for the time of its directory. -/
theorem create_keeps {make : Nat → Entry} {now : Nat}
    (directory : fs.get? p = some (.directory now)) (other : r ≠ name :: p) :
    fs.Keeps (fs.create p name make) r := by
  have grown : ((fs.tick.2).put (name :: p) (make fs.tick.1)).get? r = fs.get? r := by
    rw [get?_put _ _ _ (List.cons_ne_nil _ _), if_neg other]
    rfl
  unfold create Keeps
  dsimp only
  split
  · exact .inl grown
  · next inside =>
    rw [get?_put _ _ _ (by simpa using inside)]
    split
    · next same => exact .inr ⟨_, _, same ▸ directory, rfl⟩
    · exact .inl grown

theorem create_own {make : Nat → Entry} :
    (fs.create p name make).get? (name :: p) = some (make (fs.clock + 1)) := by
  have own : ((fs.tick.2).put (name :: p) (make fs.tick.1)).get? (name :: p) =
      some (make (fs.clock + 1)) := by
    rw [get?_put _ _ _ (List.cons_ne_nil _ _), if_pos rfl]
    rfl
  unfold create
  dsimp only
  split
  · exact own
  · next inside =>
    rw [get?_put _ _ _ (by simpa using inside), if_neg (List.cons_ne_self _ _)]
    exact own

theorem create_clock (fs : Files) (p : Place) (name : String) (make : Nat → Entry) :
    (fs.create p name make).clock = fs.clock + 1 ∧
      (fs.create p name make).current = fs.current := by
  unfold create
  dsimp only
  split <;> exact ⟨rfl, rfl⟩

theorem mayRead_create {make : Nat → Entry} (may : fs.mayRead r = true) :
    (fs.create p name make).mayRead r = true := by
  have granted := mayRead_grant (name :: p) may
  unfold create
  dsimp only
  split <;> exact granted

theorem rewrites_of_write (h : fs.write path content = .ok after) :
    fs.Rewrites (fs.place path) content after := by
  obtain ⟨p, name, old, found, h⟩ := update_eq_ok.mp h
  obtain ⟨slot, -, own⟩ := destination_eq_ok found
  obtain ⟨-, -, ⟨now, directory⟩, -⟩ := slot_eq_ok slot
  rw [place_of_slot slot]
  cases old with
  | none =>
    obtain ⟨-, rfl⟩ := h
    obtain ⟨clock, current⟩ := create_clock fs p name (.file content)
    exact ⟨current, fun _ => mayRead_create, clock, by rw [create_own, clock],
      fun _ => create_keeps directory, ⟨name, p, now, rfl, directory⟩, by simp [own]⟩
  | some old =>
    obtain ⟨-, rfl⟩ := h
    obtain ⟨t, own⟩ := own
    have put (other : Place) : ((fs.tick.2).put (name :: p) (.file content fs.tick.1)).get? other =
        if other = name :: p then some (.file content (fs.clock + 1)) else fs.get? other :=
      get?_put _ _ _ (List.cons_ne_nil _ _)
    exact ⟨rfl, fun _ may => may, rfl, (put _).trans (if_pos rfl),
      fun other apart => .inl ((put other).trans (if_neg apart)), ⟨name, p, now, rfl, directory⟩,
      by simp [own]⟩

/-! ## Making directories -/

theorem directory_of_slot {slashed : Bool} (h : fs.slot path = .ok (p, some name, slashed)) :
    ∃ now, fs.get? p = some (.directory now) := by
  obtain ⟨-, -, h⟩ := bind_eq_ok.mp h
  dsimp only at h
  split at h
  · cases h
  · obtain ⟨q, -, h⟩ := bind_eq_ok.mp h
    split at h
    · next now directory =>
      obtain ⟨rfl, -⟩ := Prod.mk.inj (Except.ok.inj h)
      exact ⟨now, directory⟩
    · cases h
    · cases h

/-- A directory is made where nothing is, in a directory that may be written. -/
theorem createDirectory_eq_ok : fs.createDirectory path = .ok after ↔
    ∃ p name slashed, fs.slot path = .ok (p, some name, slashed) ∧
      name.utf8ByteSize ≤ maxName ∧ fs.get? (name :: p) = none ∧ fs.mayWrite p = true ∧
      fs.create p name .directory = after := by
  constructor
  · intro h
    obtain ⟨⟨p, name, slashed⟩, found, h⟩ := bind_eq_ok.mp h
    cases name with
    | none => cases h
    | some name =>
      dsimp only at h
      split at h
      · cases h
      · next short =>
        split at h
        · cases h
        · next absent =>
          split at h
          · next may =>
            exact ⟨p, name, slashed, found, Nat.not_lt.mp short,
              Option.not_isSome_iff_eq_none.mp absent, may, Except.ok.inj h⟩
          · cases h
  · rintro ⟨p, name, slashed, found, short, absent, may, rfl⟩
    refine bind_eq_ok.mpr ⟨_, found, ?_⟩
    dsimp only
    rw [if_neg (Nat.not_lt.mpr short), if_neg (by simp [absent]), if_pos may]

theorem sameFiles_createDirectory (h : fs.createDirectory path = .ok after) :
    fs.SameFiles after := by
  obtain ⟨p, name, slashed, found, -, absent, -, rfl⟩ := createDirectory_eq_ok.mp h
  obtain ⟨now, directory⟩ := directory_of_slot found
  refine ⟨(create_clock ..).2, fun place content t => ?_⟩
  by_cases own : place = name :: p
  · subst own
    rw [create_own, absent]
    simp
  · exact (create_keeps directory own).file

theorem sameFiles_settleDirectory (h : fs.settleDirectory path = .ok after) :
    fs.SameFiles after := by
  unfold settleDirectory at h
  split at h
  · next made =>
    cases h
    exact sameFiles_createDirectory made
  · split at h
    · cases h
      exact .refl fs
    · cases h

theorem sameFiles_settleAll (paths : List String) : fs.SameFiles (fs.settleAll paths).1 := by
  induction paths generalizing fs with
  | nil => exact .refl fs
  | cons path rest ih =>
    unfold settleAll
    split
    · next made => exact (sameFiles_settleDirectory made).trans ih
    · exact .refl fs

/-- Directories are made beside the files that there are, and before an error no less. -/
theorem sameFiles_createDirectories (path : String) :
    fs.SameFiles (fs.createDirectories path).1 := by
  unfold createDirectories
  split
  · exact .refl fs
  · split
    · next made => exact sameFiles_settleDirectory made
    · exact sameFiles_settleAll _
    · exact .refl fs

theorem Single.createDirectories {now : Nat} (single : Single name)
    (directory : fs.get? fs.current = some (.directory now))
    (absent : fs.get? (name :: fs.current) = none) (may : fs.mayWrite fs.current = true) :
    fs.createDirectories name = (fs.create fs.current name .directory, none) := by
  have made : fs.createDirectory name = .ok (fs.create fs.current name .directory) :=
    createDirectory_eq_ok.mpr
      ⟨_, name, _, single.slot directory, single.short, absent, may, rfl⟩
  have filled : name.isEmpty = false := by simpa using single.proper.1
  rw [Files.createDirectories, if_neg (by simp [filled]), settleDirectory, made]

/-! ## Trees -/

/-- Whatever is there is in a directory. -/
def Rooted (fs : Files) : Prop :=
  ∀ name p, (fs.get? (name :: p)).isSome → ∃ t, fs.get? p = some (.directory t)

theorem Rewrites.rooted (changes : fs.Rewrites r content after) (rooted : fs.Rooted) :
    after.Rooted := by
  obtain ⟨own, q, t, rfl, directory⟩ := changes.inside
  intro name p there
  have stays {p} (before : ∃ t, fs.get? p = some (.directory t)) :
      ∃ t, after.get? p = some (.directory t) := by
    refine (changes.others p ?_).directory.mpr before
    rintro rfl
    obtain ⟨t, before⟩ := before
    exact changes.free t before
  by_cases same : name :: p = own :: q
  · obtain ⟨rfl, rfl⟩ := List.cons.inj same
    exact stays ⟨t, directory⟩
  · exact stays (rooted name p ((changes.others _ same).isSome ▸ there))

/-- Where something is in a place, no file is above it. -/
theorem Rooted.above (rooted : fs.Rooted) (there : (fs.get? (name :: p)).isSome) :
    fs.get? p.tail ≠ some (.file content t) := by
  cases p with
  | nil => nofun
  | cons parent p =>
    obtain ⟨t, directory⟩ := rooted name (parent :: p) there
    obtain ⟨t', above⟩ := rooted parent p (by rw [directory]; rfl)
    rw [List.tail_cons, above]
    nofun

/-! ## Other extensions -/

/-- A path that is written to has the extension of the last name of its place. -/
theorem extension?_of_write (h : fs.write path content = .ok after) :
    ∃ name p, fs.place path = name :: p ∧ Path.extension? path = (Path.cutName name).2 := by
  obtain ⟨⟨p, name, old⟩, found, -⟩ := bind_eq_ok.mp h
  obtain ⟨-, proper, -, front, cut, -⟩ := slot_eq_ok (destination_eq_ok found).1
  exact ⟨name, p, place_of_destination found, Path.extension?_of_parts cut proper⟩

/-- The path beside a path leads to a name with the other extension in the same directory, or to the
parent. -/
theorem place_sibling (fs : Files) {extension cache : String}
    (h : Path.sibling path extension = .ok cache) (extended : extension ≠ "")
    (slashless : '/' ∉ extension.toList) (dotless : '.' ∉ extension.toList) : ∃ name p,
      fs.place path = name :: p ∧ Path.extension? path = (Path.cutName name).2 ∧
      (fs.place cache = p.tail ∨
        ∃ other, fs.place cache = other :: p ∧ (Path.cutName other).2 = some extension) := by
  obtain ⟨before, name, after, stem, ext, around, cut, own, beside⟩ :=
    Path.sibling_cases h extended
  obtain ⟨behind, dots, parts⟩ := Path.parts_around around
  have front {part : String} (free : '/' ∉ part.toList) : fs.place (before ++ part) =
      Path.onward (Path.follow (fs.start path) (Path.dirs before)) part := by
    have starts : fs.start (before ++ part) = fs.start path := by
      rw [start, start]
      exact if_congr (Path.startsWith_beside around free) rfl rfl
    rw [place, starts, Path.parts_beside around.front free, Path.follow_append]
    rfl
  refine ⟨name, Path.follow (fs.start path) (Path.dirs before), ?_, by rw [own, cut], ?_⟩
  · rw [place, parts, ← List.singleton_append, ← List.append_assoc, Path.follow_append,
      Path.follow_name around.proper, Path.follow_dots dots]
  · rcases beside with rfl | rfl
    · exact .inl (front (by decide))
    · have free := Path.stem_slashless cut around.slashless slashless
      have again := Path.cutName_extended (Path.stem_ne_empty cut around.proper.1) dotless
      generalize stem ++ "." ++ extension = other at again free
      refine .inr ⟨other, (front free).trans (Path.onward_name ⟨?_, ?_, ?_⟩), by rw [again]⟩
      · rintro rfl
        cases again
      · rintro rfl
        cases again
      · rintro rfl
        obtain ⟨-, same⟩ := Prod.mk.inj again
        exact extended (Option.some.inj same).symm

/-- The path beside a path leads elsewhere, unless the path has the extension already. -/
theorem place_sibling_ne {extension cache : String} (h : Path.sibling path extension = .ok cache)
    (extended : extension ≠ "") (slashless : '/' ∉ extension.toList)
    (dotless : '.' ∉ extension.toList) (other : Path.extension? path ≠ some extension) :
    fs.place cache ≠ fs.place path := by
  obtain ⟨name, p, own, same, above | ⟨last, beside, cut⟩⟩ :=
    place_sibling fs h extended slashless dotless
  · rw [own, above]
    intro same
    have long := congrArg List.length same
    rw [List.length_tail, List.length_cons] at long
    omega
  · rw [own, beside]
    intro equal
    obtain ⟨rfl, -⟩ := List.cons.inj equal
    exact other (same.trans cut)

end Files
end Phrasebook
