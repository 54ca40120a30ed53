import Phrasebook.Cache
import Phrasebook.Proofs.Joining
import Phrasebook.Proofs.Siblings

/-!
# Files that are written over

* `Files.slot_eq_ok`, `Files.locate_around`: where a file is written, and where its path leads;
* `Files.get?_update`: writing leaves every other file as it is;
* `Cache.locate_beside`: a cache is not its template, unless the template has the extension of
  caches;
* `Cache.load_keeps`: loading through a cache changes no other file than the cache;
* `Cache.load_overwrites`: a template with the extension of caches is lost.
-/

namespace Phrasebook

namespace Files

variable {fs after : Files} {place p q : Place} {path part name : String} {content : List UInt8}
  {t : Nat}

/-! ## Paths -/

theorem step_dot (dot : part = "" ∨ part = ".") (h : fs.step p part = .ok q) :
    q = p ∧ ∃ t, fs.get? p = some (.directory t) := by
  unfold step at h
  split at h
  · next t found =>
    rw [if_pos (by simpa using dot)] at h
    cases h
    exact ⟨rfl, t, found⟩
  · cases h
  · cases h

theorem step_name (proper : part ≠ "" ∧ part ≠ "." ∧ part ≠ "..") :
    fs.step p part = .ok q ↔ q = part :: p ∧ (∃ t, fs.get? p = some (.directory t)) ∧
      part.utf8ByteSize ≤ maxName ∧ (fs.get? (part :: p)).isSome := by
  obtain ⟨filled, single, double⟩ := proper
  unfold step
  split
  · next t found =>
    rw [if_neg (by simp [filled, single]), if_neg double]
    split
    · next long => simp [Nat.not_le.mpr long]
    · next short =>
      split
      · next there => simp [found, Nat.not_lt.mp short, there, eq_comm]
      · next absent => simp [absent]
  · next found => simp [found]
  · next found => simp [found]

theorem walk_append (front behind : List String) (p : Place) :
    fs.walk p (front ++ behind) = fs.walk p front >>= fun q => fs.walk q behind :=
  List.foldlM_append

theorem walk_singleton : fs.walk p [part] = fs.step p part := by
  rw [walk, List.foldlM_cons]
  cases fs.step p part <;> rfl

theorem slot_name {front : List String} {now : Nat} (checked : checkPath path = .ok ())
    (cut : Path.parts path = front ++ [name]) (proper : name ≠ "" ∧ name ≠ "." ∧ name ≠ "..")
    (walked : fs.walk (fs.start path) front = .ok p)
    (directory : fs.get? p = some (.directory now)) : fs.slot path = .ok (p, some name, false) := by
  obtain ⟨filled, single, double⟩ := proper
  have turned : (Path.parts path).reverse = name :: front.reverse := by
    rw [cut, List.reverse_append, List.reverse_singleton, List.singleton_append]
  have kept : (name :: front.reverse).dropWhile (· = "") = name :: front.reverse :=
    List.dropWhile_cons_of_neg (by simpa using filled)
  refine bind_eq_ok.mpr ⟨(), checked, ?_⟩
  dsimp only
  rw [turned, kept]
  dsimp only
  rw [List.reverse_reverse]
  refine bind_eq_ok.mpr ⟨p, walked, ?_⟩
  rw [directory]
  dsimp only
  rw [if_neg (by simp [single, double]), List.head?_cons]
  simp [filled]

/-- The path of a file leads below its directory, to its last name. -/
theorem locate_around {before behind : String} (around : Path.Around path before name behind)
    (located : fs.locate path = .ok place) (there : fs.get? place = some (.file content t)) :
    ∃ p, fs.walk (fs.start path) (Path.dirs before) = .ok p ∧ place = name :: p ∧
      fs.destination path = .ok (p, name, some content) := by
  obtain ⟨⟨⟩, checked, located⟩ := bind_eq_ok.mp located
  obtain ⟨parts, dots, cut⟩ := Path.parts_around around
  rw [cut, walk_append] at located
  obtain ⟨p, front, located⟩ := bind_eq_ok.mp located
  rw [← List.singleton_append, walk_append, walk_singleton] at located
  obtain ⟨q, last, located⟩ := bind_eq_ok.mp located
  obtain ⟨rfl, ⟨now, directory⟩, short, -⟩ := (step_name around.proper).mp last
  rcases List.eq_nil_or_concat parts with rfl | ⟨others, part, rfl⟩
  · obtain rfl : name :: p = place := Except.ok.inj located
    refine ⟨p, front, rfl, ?_⟩
    refine bind_eq_ok.mpr ⟨_, slot_name checked cut around.proper front directory, ?_⟩
    dsimp only
    rw [if_neg (Nat.not_lt.mpr short), there]
  · rw [List.concat_eq_append, walk_append] at located
    obtain ⟨q, -, located⟩ := bind_eq_ok.mp located
    rw [walk_singleton] at located
    obtain ⟨rfl, t, directory⟩ := step_dot (dots part (by simp)) located
    rw [there] at directory
    cases directory

theorem slot_eq_ok (h : fs.slot path = .ok (p, some name, false)) : checkPath path = .ok () ∧
    (name ≠ "" ∧ name ≠ "." ∧ name ≠ "..") ∧ (∃ t, fs.get? p = some (.directory t)) ∧
      ∃ front, Path.parts path = front ++ [name] ∧ fs.walk (fs.start path) front = .ok p := by
  obtain ⟨⟨⟩, checked, h⟩ := bind_eq_ok.mp h
  refine ⟨checked, ?_⟩
  dsimp only at h
  generalize turned : (Path.parts path).reverse = reversed at h
  split at h
  · cases h
  · next last before kept =>
    obtain ⟨q, front, h⟩ := bind_eq_ok.mp h
    split at h
    · next t directory =>
      simp only [Except.ok.injEq, Prod.mk.injEq, decide_eq_false_iff_not] at h
      obtain ⟨rfl, named, unslashed⟩ := h
      split at named
      · cases named
      · next undotted =>
        obtain rfl := Option.some.inj named
        have filled : last ≠ "" := by
          have found := List.head?_dropWhile_not (· = "") reversed
          rw [kept] at found
          simpa using found
        have whole : reversed = last :: before := by
          cases reversed with
          | nil => cases kept
          | cons part others =>
            rw [List.dropWhile_cons_of_neg (by simpa using unslashed)] at kept
            exact kept
        refine ⟨⟨filled, by simpa using undotted⟩, ⟨t, directory⟩, before.reverse, ?_, front⟩
        rw [← List.reverse_reverse (Path.parts path), turned, whole, List.reverse_cons]
    · cases h
    · cases h

theorem destination_eq_ok {old : Option (List UInt8)}
    (h : fs.destination path = .ok (p, name, old)) : fs.slot path = .ok (p, some name, false) ∧
      name.utf8ByteSize ≤ maxName ∧
        match old with
        | none => fs.get? (name :: p) = none
        | some content => ∃ t, fs.get? (name :: p) = some (.file content t) := by
  obtain ⟨slot, found, h⟩ := bind_eq_ok.mp h
  split at h
  · cases h
  · cases h
  · split at h
    · cases h
    · next short =>
      split at h
      · next absent =>
        cases h
        exact ⟨found, Nat.not_lt.mp short, absent⟩
      · next t there =>
        cases h
        exact ⟨found, Nat.not_lt.mp short, t, there⟩
      · cases h

theorem locate_of_destination (h : fs.destination path = .ok (p, name, some content)) :
    fs.locate path = .ok (name :: p) := by
  obtain ⟨slot, short, t, there⟩ := destination_eq_ok h
  obtain ⟨checked, proper, directory, front, cut, walked⟩ := slot_eq_ok slot
  refine bind_eq_ok.mpr ⟨(), checked, ?_⟩
  rw [cut, walk_append]
  refine bind_eq_ok.mpr ⟨p, walked, ?_⟩
  rw [walk_singleton]
  exact (step_name proper).mpr ⟨rfl, directory, short, by rw [there]; rfl⟩

theorem file_of_textAt {text : String} (h : fs.textAt place = .ok text) :
    ∃ content t, fs.get? place = some (.file content t) := by
  obtain ⟨content, bytes, -⟩ := bind_eq_ok.mp h
  obtain ⟨-, t, there⟩ := bytesAt_eq_ok.mp bytes
  exact ⟨content, t, there⟩

theorem mayRead_of_textAt {text : String} (h : fs.textAt place = .ok text) :
    fs.mayRead place = true := by
  obtain ⟨content, bytes, -⟩ := bind_eq_ok.mp h
  exact (bytesAt_eq_ok.mp bytes).1

/-! ## Writing -/

/-- A file is changed where it may be written, and a new one is made where its directory may be. -/
theorem update_eq_ok {make : List UInt8 → List UInt8} : fs.update path make = .ok after ↔
    ∃ p name old, fs.destination path = .ok (p, name, old) ∧
      match old with
      | none => fs.mayWrite p = true ∧ after = fs.create p name (.file (make []))
      | some content => fs.mayWrite (name :: p) = true ∧
          after = fs.tick.2.put (name :: p) (.file (make content) fs.tick.1) := by
  simp only [update, bind_eq_ok, Prod.exists]
  refine exists_congr fun p => exists_congr fun name => exists_congr fun old =>
    and_congr_right fun _ => ?_
  cases old with
  | none => cases may : fs.mayWrite p <;> simp [may, @eq_comm _ after]
  | some content => cases may : fs.mayWrite (name :: p) <;> simp [may, @eq_comm _ after]

theorem get?_create {make : Nat → Entry} {e : Entry} (there : fs.get? place = some e)
    (other : place ≠ name :: p) (outside : place ≠ p) :
    (fs.create p name make).get? place = some e := by
  have grown : ((fs.tick.2).put (name :: p) (make fs.tick.1)).get? place = some e := by
    rw [get?_put _ _ _ (List.cons_ne_nil _ _), if_neg other]
    exact there
  unfold create
  dsimp only
  split
  · exact grown
  · next inside =>
    rw [get?_put _ _ _ (by simpa using inside), if_neg outside]
    exact grown

/-- Writing leaves every other file as it is. -/
theorem get?_update {make : List UInt8 → List UInt8} (h : fs.update path make = .ok after)
    (there : fs.get? place = some (.file content t)) :
    after.get? place = some (.file content t) ∨
      ∃ p name now, fs.destination path = .ok (p, name, some content) ∧ place = name :: p ∧
        after.get? place = some (.file (make content) now) := by
  obtain ⟨p, name, old, found, h⟩ := update_eq_ok.mp h
  obtain ⟨slot, -, own⟩ := destination_eq_ok found
  obtain ⟨-, -, ⟨t', directory⟩, -⟩ := slot_eq_ok slot
  cases old with
  | none =>
    obtain ⟨-, rfl⟩ := h
    left
    refine get?_create there ?_ ?_
    · rintro rfl
      rw [there] at own
      cases own
    · rintro rfl
      rw [there] at directory
      cases directory
  | some old =>
    obtain ⟨-, rfl⟩ := h
    obtain ⟨t'', own⟩ := own
    have put (e : Entry) : ((fs.tick.2).put (name :: p) e).get? place =
        if place = name :: p then some e else fs.get? place :=
      get?_put _ _ _ (List.cons_ne_nil _ _)
    by_cases same : place = name :: p
    · subst same
      rw [there] at own
      cases own
      exact .inr ⟨p, name, _, found, rfl, (put _).trans (if_pos rfl)⟩
    · exact .inl ((put _).trans ((if_neg same).trans there))

/-- What is written over is there no longer. -/
theorem write_over (found : fs.destination path = .ok (p, name, some content))
    (may : fs.mayWrite (name :: p) = true) (new : List UInt8) :
    ∃ after now, fs.write path new = .ok after ∧
      after.get? (name :: p) = some (.file new now) := by
  refine ⟨_, fs.clock + 1, update_eq_ok.mpr ⟨p, name, _, found, may, rfl⟩, ?_⟩
  exact (get?_put _ _ _ (List.cons_ne_nil _ _)).trans (if_pos rfl)

end Files

namespace Cache

variable {fs : Files} {path : String} {place : Place} {content : List UInt8} {t : Nat}

/-- A cache is beside the template, with another name, unless the template has the extension of
caches. -/
theorem locate_beside {cache name : String} {p : Place} {old : Option (List UInt8)}
    (beside : Path.sibling path fileExtension = .ok cache)
    (found : fs.destination cache = .ok (p, name, old)) (located : fs.locate path = .ok place)
    (there : fs.get? place = some (.file content t)) :
    place = name :: p ↔ Path.extension? path = some fileExtension := by
  obtain ⟨slot, -⟩ := Files.destination_eq_ok found
  obtain ⟨-, proper, -, front, cut, walked⟩ := Files.slot_eq_ok slot
  obtain ⟨before, own, after, around, rfl | ⟨other, rfl, slashless, same⟩⟩ :=
    Path.sibling_eq_ok beside (by decide) (by decide)
  · rw [Path.parts_beside around.front (by decide)] at cut
    obtain ⟨-, rfl⟩ := List.append_singleton_inj.mp cut
    exact absurd rfl proper.2.2
  · rw [Path.parts_beside around.front slashless] at cut
    obtain ⟨rfl, rfl⟩ := List.append_singleton_inj.mp cut
    obtain ⟨q, walked', rfl, -⟩ := Files.locate_around around located there
    have starts : fs.start (before ++ other) = fs.start path := by
      rw [Files.start, Files.start]
      exact if_congr (Path.startsWith_beside around slashless) rfl rfl
    rw [starts, walked'] at walked
    obtain rfl := Except.ok.inj walked
    rw [← same, List.cons.injEq, and_iff_left rfl, eq_comm]

/-- **Loading through a cache changes one file at most**: the cache, which holds the store of the
template then. It is the template itself just when the template has the extension of caches. -/
theorem load_keeps (there : fs.get? place = some (.file content t)) :
    (load fs path).2.get? place = some (.file content t) ∨
      ∃ cache s now, Path.sibling path fileExtension = .ok cache ∧ fs.locate cache = .ok place ∧
        Template.load fs path = .ok s ∧
        (load fs path).2.get? place = some (.file (encode s) now) ∧
        (fs.locate path = .ok place ↔ Path.extension? path = some fileExtension) := by
  unfold load
  split
  · exact .inl there
  · next cache beside =>
    split
    · exact .inl there
    · exact .inl there
    · split
      · exact .inl there
      · next s loads =>
        unfold save
        split
        · next after written =>
          rcases Files.get?_update written there with kept | ⟨p, name, now, found, rfl, own⟩
          · exact .inl kept
          · refine .inr ⟨cache, s, now, beside, Files.locate_of_destination found, loads, own, ?_⟩
            obtain ⟨place, text, located, -, reads, -⟩ := Template.addFile_eq_ok.mp loads
            obtain ⟨content', t', template⟩ := Files.file_of_textAt reads
            rw [← locate_beside beside found located template, located, Except.ok.injEq]
        · exact .inl there

theorem load_keeps_greeting : ∃ (fs : Files) (s : Store) (content : List UInt8),
    Template.load fs "a.tpl" = .ok s ∧ fs.get? ["a.tpl"] = some (.file content 1) ∧
      (load fs "a.tpl").2.get? ["a.tpl"] = some (.file content 1) := by
  let content := Text.utf8 "~[a]\n  x\n"
  let fs : Files := { entries := [(["a.tpl"], .file content 1)] }
  let word : Definition := ⟨"a", .alias, false, [⟨none, none, [⟨[.word "x"], none⟩]⟩]⟩
  let s : Store := ⟨⟨[("a", word)], by decide⟩, ∅, ∅⟩
  have located : fs.locate "a.tpl" = .ok ["a.tpl"] := by cbv
  have loads : Template.load fs "a.tpl" = .ok s := by
    rw [Template.load, Template.addFile_opened located List.not_mem_nil (Files.textAt_utf8 rfl rfl)]
    cbv
  have there : fs.get? ["a.tpl"] = some (.file content 1) := rfl
  have own : Path.extension? "a.tpl" = some "tpl" := rfl
  refine ⟨fs, s, content, loads, there, ?_⟩
  rcases @load_keeps fs "a.tpl" _ _ _ there with kept | ⟨-, -, -, -, -, -, -, same⟩
  · exact kept
  · rw [own] at same
    exact absurd (same.mp located) (by decide)

/-- A template that has the extension of caches is taken for its cache, which cannot be decoded, and
is written over where it may be. -/
theorem load_overwrites {s : Store} (beside : Path.sibling path fileExtension = .ok path)
    (located : fs.locate path = .ok place) (there : fs.get? place = some (.file content t))
    (undecodable : decode content = none) (may : fs.mayWrite place = true)
    (loads : Template.load fs path = .ok s) :
    ∃ now, (load fs path).2.get? place = some (.file (encode s) now) := by
  have found : fs.find path = .ok (.file content t) := by
    refine bind_eq_ok.mpr ⟨place, located, ?_⟩
    rw [there]
  have fresh : fs.isStale path path = .ok false := by
    refine bind_eq_ok.mpr ⟨_, found, ?_⟩
    rw [found]
    simp
  have bytes : fs.bytes path = .ok content := by
    obtain ⟨place', text, located', -, reads, -⟩ := Template.addFile_eq_ok.mp loads
    obtain rfl := Except.ok.inj (located.symm.trans located')
    exact bind_eq_ok.mpr ⟨place, located,
      Files.bytesAt_eq_ok.mpr ⟨Files.mayRead_of_textAt reads, t, there⟩⟩
  have looked : lookUp fs path path = .ok none := by
    rw [lookUp, fresh, bytes]
    exact congrArg Except.ok undecodable
  obtain ⟨before, name, after, around, -⟩ := Path.sibling_eq_ok beside (by decide) (by decide)
  obtain ⟨p, -, rfl, own⟩ := Files.locate_around around located there
  obtain ⟨after, now, written, there⟩ := Files.write_over own may (encode s)
  refine ⟨now, ?_⟩
  rw [load, beside]
  dsimp only
  rw [looked]
  dsimp only
  rw [loads]
  dsimp only
  rw [save, written]
  exact there

/-- A template `a.bin` is not there any longer once it was loaded. -/
theorem template_overwritten : ∃ (fs : Files) (content new : List UInt8) (now : Nat),
    fs.locate "a.bin" = .ok ["a.bin"] ∧ fs.get? ["a.bin"] = some (.file content 1) ∧
      (load fs "a.bin").2.get? ["a.bin"] = some (.file new now) ∧ new ≠ content := by
  let content := Text.utf8 "~[a]\n  x\n"
  let fs : Files := { entries := [(["a.bin"], .file content 1)] }
  let word : Definition := ⟨"a", .alias, false, [⟨none, none, [⟨[.word "x"], none⟩]⟩]⟩
  let s : Store := ⟨⟨[("a", word)], by decide⟩, ∅, ∅⟩
  have located : fs.locate "a.bin" = .ok ["a.bin"] := by cbv
  have loads : Template.load fs "a.bin" = .ok s := by
    rw [Template.load, Template.addFile_opened located List.not_mem_nil (Files.textAt_utf8 rfl rfl)]
    cbv
  have undecodable : decode content = none := rfl
  obtain ⟨now, overwritten⟩ := load_overwrites rfl located rfl undecodable rfl loads
  have first : (encode s).head? = some 1 := by cbv
  have other : encode s ≠ content := by
    intro same
    rw [same] at first
    cases first
  exact ⟨fs, content, encode s, now, located, rfl, overwritten, other⟩

end Cache
end Phrasebook
