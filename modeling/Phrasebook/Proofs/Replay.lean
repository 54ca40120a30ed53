import Mathlib.Data.List.Induction
import Phrasebook.Proofs.Fallback
import Phrasebook.Proofs.Making
import Phrasebook.Proofs.Restored

/-!
# Runs of writes and loads

Templates are written, and loaded through their caches, in any order. Every change has a later time
than all before it, so that a cache that is not older than its template was written after it.

* `Cache.Event.Stores`: what an event can write, and `apply_cases`: it changes nothing else;
* `Cache.origin_of_file`: a file that was not there at first is what some event wrote, and no file
  was changed since that is not newer;
* `Cache.load_current`: so a load answers with the store of its template as it is, or with the store
  of another template that has the same cache.
-/

namespace Phrasebook

namespace Template

/-- The text includes nothing. -/
def Alone (text : String) : Prop :=
  ∀ target, .inclusion target ∉ TemplateLine.seen (Text.lines text.toList)

theorem alone_iff {text : String} : Alone text ↔
    ∀ line ∈ TemplateLine.seen (Text.lines text.toList), ¬line matches .inclusion _ := by
  constructor
  · intro alone line there
    cases line with
    | inclusion target => exact absurd there (alone target)
    | _ => exact Bool.false_ne_true
  · exact fun none target there => none _ there rfl

instance (text : String) : Decidable (Alone text) := decidable_of_iff _ alone_iff.symm

/-- A file that includes nothing is read like its text, wherever it is. -/
theorem load_alone {fs : Files} {path text : String} {place : Place} {s : Store}
    (alone : Alone text) (located : fs.locate path = .ok place)
    (reads : fs.textAt place = .ok text) : load fs path = .ok s ↔ read {} text = .ok s := by
  rw [load, addFile_opened located List.not_mem_nil reads, read, addLines_eq_ok alone,
    addLines_eq_ok alone]

end Template

namespace Cache

/-- Something that happens where templates are kept. -/
inductive Event where
  | write (path : String) (content : List UInt8)
  | load (path : String)

namespace Event

/-- The files after an event. What cannot be written is left as it was. -/
def apply (fs : Files) : Event → Files
  | write path content =>
    match fs.write path content with
    | .ok after => after
    | .error _ => fs
  | load path => (Cache.load fs path).2

/-- What an event writes, and where: a template, or the store of one into its cache. -/
inductive Stores (fs : Files) : Event → Place → List UInt8 → Prop
  | write {path content after} (written : fs.write path content = .ok after) :
    Stores fs (.write path content) (fs.place path) content
  | load {path cache s} (beside : Path.sibling path fileExtension = .ok cache)
      (loads : Template.load fs path = .ok s) : Stores fs (.load path) (fs.place cache) (encode s)

theorem apply_cases (e : Event) (fs : Files) : e.apply fs = fs ∨
    ∃ place content, e.Stores fs place content ∧ fs.Rewrites place content (e.apply fs) := by
  cases e with
  | write path content =>
    rw [apply]
    split
    · next after written => exact .inr ⟨_, _, .write written, Files.rewrites_of_write written⟩
    · exact .inl rfl
  | load path =>
    rw [apply, Cache.load]
    split
    · exact .inl rfl
    · next cache beside =>
      split
      · exact .inl rfl
      · exact .inl rfl
      · split
        · exact .inl rfl
        · next s loads =>
          rw [save]
          split
          · next after written =>
            exact .inr ⟨_, _, .load beside loads, Files.rewrites_of_write written⟩
          · exact .inl rfl

end Event

/-- The files after a run of events. -/
def replay (start : Files) (events : List Event) : Files :=
  events.foldl (fun fs e => e.apply fs) start

section
variable {start : Files} {events before later : List Event} {place : Place} {content : List UInt8}
  {t : Nat}

theorem replay_append (start : Files) (before later : List Event) :
    replay start (before ++ later) = replay (replay start before) later :=
  List.foldl_append

theorem replay_concat (start : Files) (events : List Event) (e : Event) :
    replay start (events ++ [e]) = e.apply (replay start events) :=
  List.foldl_concat ..

theorem replay_current (start : Files) (events : List Event) :
    (replay start events).current = start.current := by
  induction events using List.reverseRecOn with
  | nil => rfl
  | append_singleton events e ih =>
    rw [replay_concat]
    rcases e.apply_cases (replay start events) with same | ⟨_, _, _, changes⟩
    · rw [same, ih]
    · rw [changes.current, ih]

theorem rooted_replay (rooted : start.Rooted) (events : List Event) :
    (replay start events).Rooted := by
  induction events using List.reverseRecOn with
  | nil => exact rooted
  | append_singleton events e ih =>
    rw [replay_concat]
    rcases e.apply_cases (replay start events) with same | ⟨_, _, _, changes⟩
    · rwa [same]
    · exact changes.rooted ih

/-- A file is never removed. -/
theorem file_replay (there : start.get? place = some (.file content t)) (events : List Event) :
    ∃ content' t', (replay start events).get? place = some (.file content' t') := by
  induction events using List.reverseRecOn with
  | nil => exact ⟨content, t, there⟩
  | append_singleton events e ih =>
    obtain ⟨content', t', there⟩ := ih
    rw [replay_concat]
    rcases e.apply_cases (replay start events) with same | ⟨r, written, _, changes⟩
    · exact ⟨content', t', by rwa [same]⟩
    · by_cases own : place = r
      · exact ⟨_, _, own ▸ changes.file⟩
      · exact ⟨content', t', (changes.others place own).file.mpr there⟩

theorem mayRead_replay (may : start.mayRead place = true) (events : List Event) :
    (replay start events).mayRead place = true := by
  induction events using List.reverseRecOn with
  | nil => exact may
  | append_singleton events e ih =>
    rw [replay_concat]
    rcases e.apply_cases (replay start events) with same | ⟨_, _, _, changes⟩
    · rwa [same]
    · exact changes.mayRead place ih

/-- A file came about at an event of the run, and a file that is elsewhere and has no later time was
there then as it is now. -/
structure Origin (start : Files) (before : List Event) (e : Event) (later : List Event)
    (place : Place) (content : List UInt8) (t : Nat) : Prop where
  stores : e.Stores (replay start before) place content
  kept : ∀ other ≠ place, ∀ content' t', t' ≤ t →
    (replay start (before ++ e :: later)).get? other = some (.file content' t') →
    (replay start before).get? other = some (.file content' t')

/-- What a run leaves where no file was at first. -/
theorem origin_of_file (clean : ∀ content t, start.get? place ≠ some (.file content t))
    (there : (replay start events).get? place = some (.file content t)) :
    t ≤ (replay start events).clock ∧ ∃ before e later, events = before ++ e :: later ∧
      Origin start before e later place content t := by
  induction events using List.reverseRecOn generalizing content t with
  | nil => exact absurd there (clean content t)
  | append_singleton events e ih =>
    have whole := replay_concat start events e
    rw [whole] at there
    rcases e.apply_cases (replay start events) with same | ⟨r, written, stores, changes⟩
    · rw [same] at there whole
      obtain ⟨early, before, first, later, rfl, origin⟩ := ih there
      refine ⟨by rwa [whole], before, first, later ++ [e], by simp, origin.stores, ?_⟩
      intro other apart content' t' past found
      rw [List.append_cons, ← List.append_assoc, ← List.append_cons, whole] at found
      exact origin.kept other apart content' t' past found
    · by_cases own : place = r
      · subst own
        obtain ⟨rfl, rfl⟩ := Entry.file.inj (Option.some.inj (there.symm.trans changes.file))
        refine ⟨Nat.le_of_eq (congrArg Files.clock whole.symm), events, e, [], rfl, stores, ?_⟩
        intro other apart content' t' past found
        rw [whole] at found
        exact (changes.others other apart).file.mp found
      · obtain ⟨early, before, first, later, rfl, origin⟩ :=
          ih ((changes.others place own).file.mp there)
        refine ⟨?_, before, first, later ++ [e], by simp, origin.stores, ?_⟩
        · rw [whole, changes.clock]
          omega
        · intro other apart content' t' past found
          rw [List.append_cons, ← List.append_assoc, ← List.append_cons, whole] at found
          by_cases newest : other = r
          · subst newest
            obtain ⟨rfl, rfl⟩ := Entry.file.inj (Option.some.inj (found.symm.trans changes.file))
            rw [changes.clock] at past
            omega
          · exact origin.kept other apart content' t' past
              ((changes.others other newest).file.mp found)

/-- A file that was read then is read as it was, if it has no later time. -/
theorem Origin.textAt {e : Event} {other : Place} {now : Entry} {text : String}
    (origin : Origin start before e later place content t) (apart : other ≠ place)
    (reads : (replay start before).textAt other = .ok text)
    (there : (replay start (before ++ e :: later)).get? other = some now)
    (past : now.changed ≤ t) : (replay start (before ++ e :: later)).textAt other = .ok text := by
  obtain ⟨bytes, read, decoded⟩ := bind_eq_ok.mp reads
  obtain ⟨readable, _, first⟩ := Files.bytesAt_eq_ok.mp read
  obtain ⟨content', t', last⟩ := file_replay first (e :: later)
  have may := mayRead_replay readable (e :: later)
  rw [← replay_append] at last may
  obtain rfl := Option.some.inj (there.symm.trans last)
  have same := origin.kept other apart content' t' past last
  obtain ⟨rfl, -⟩ := Entry.file.inj (Option.some.inj (same.symm.trans first))
  exact bind_eq_ok.mpr ⟨content', Files.bytesAt_eq_ok.mpr ⟨may, t', last⟩, decoded⟩

end

/-! ## Loading -/

variable {start fs : Files} {events : List Event} {path cache : String} {s : Store}

/-- A store that is looked up is what a cache holds that is not older than its template. -/
theorem lookUp_eq_some (looked : lookUp fs cache path = .ok (some s)) :
    ∃ place e content t, fs.locate path = .ok place ∧ fs.get? place = some e ∧ e.changed ≤ t ∧
      fs.get? (fs.place cache) = some (.file content t) ∧ decode content = some s := by
  cases own : fs.find path with
  | error fault =>
    rw [lookUp, Files.isStale, own] at looked
    cases looked
  | ok e =>
    obtain ⟨place, located, template⟩ := Files.find_eq_ok.mp own
    rw [lookUp_found own] at looked
    cases there : fs.find cache with
    | error fault =>
      rw [there] at looked
      cases looked
    | ok d =>
      obtain ⟨place', located', kept⟩ := Files.find_eq_ok.mp there
      rw [there] at looked
      dsimp only at looked
      split at looked
      · cases looked
      · next fresh =>
        split at looked
        · cases looked
        · next content reads =>
          obtain ⟨place'', t, located'', -, held⟩ := Files.bytes_eq_ok.mp reads
          obtain rfl := Except.ok.inj (located'.symm.trans located'')
          obtain rfl := Option.some.inj (kept.symm.trans held)
          rw [← Files.place_of_locate located'] at kept
          exact ⟨place, e, content, t, located, template, Nat.not_lt.mp fresh, kept,
            Except.ok.inj looked⟩

/-- An answer comes from the cache, or else from the template. -/
theorem load_eq_ok (beside : Path.sibling path fileExtension = .ok cache)
    (answer : (load fs path).1 = .ok s) :
    lookUp fs cache path = .ok (some s) ∨ Template.load fs path = .ok s := by
  rw [load, beside] at answer
  dsimp only at answer
  cases looked : lookUp fs cache path with
  | error e =>
    rw [looked] at answer
    cases answer
  | ok found =>
    rw [looked] at answer
    cases found with
    | some s' => exact .inl (congrArg _ (congrArg some (Except.ok.inj answer)))
    | none =>
      dsimp only at answer
      split at answer
      · cases answer
      · next loads => exact .inr (loads.trans answer)

theorem load_uncached {after : Files} {e : Entry} {fault : FileFault}
    (beside : Path.sibling path fileExtension = .ok cache) (own : fs.find path = .ok e)
    (absent : fs.find cache = .error fault) (loads : Template.load fs path = .ok s)
    (written : fs.write cache (encode s) = .ok after) : load fs path = (.ok s, after) := by
  rw [load, beside]
  dsimp only
  rw [lookUp_found own, absent]
  dsimp only
  rw [loads]
  dsimp only
  rw [save, written]

theorem load_cached {d e : Entry} (beside : Path.sibling path fileExtension = .ok cache)
    (own : fs.find path = .ok e) (there : fs.find cache = .ok d) (fresh : e.changed ≤ d.changed)
    (held : fs.bytes cache = .ok (encode s)) (fits : s.Storable) :
    load fs path = (.ok s, fs) := by
  have decoded := (decode_append s []).1 fits
  rw [List.append_nil] at decoded
  rw [load, beside]
  dsimp only
  rw [lookUp_found own, there]
  dsimp only
  rw [if_neg (Nat.not_lt.mpr fresh), held]
  dsimp only
  rw [decoded]

/-- A file that is looked up as the cache of some template has the extension of caches. -/
theorem extension_cached (beside : Path.sibling path fileExtension = .ok cache)
    (rooted : fs.Rooted) {e : Entry} {content : List UInt8} {t : Nat}
    (there : fs.get? (fs.place path) = some e)
    (cached : fs.get? (fs.place cache) = some (.file content t)) :
    ∃ last p, fs.place cache = last :: p ∧ (Path.cutName last).2 = some fileExtension := by
  obtain ⟨name, p, own, -, above | ⟨last, named, cut⟩⟩ :=
    Files.place_sibling fs beside (by decide) (by decide) (by decide)
  · rw [own] at there
    rw [above] at cached
    exact absurd cached (rooted.above (by rw [there]; rfl))
  · exact ⟨last, p, named, cut⟩

/-- **A load answers with the store of its template as it is**, or with the store that another
template with the same cache had when it was loaded. No file is in the place of the cache at the
start, the template includes nothing, and no template has the extension of caches. -/
theorem load_current (beside : Path.sibling path fileExtension = .ok cache)
    (extended : Path.extension? path ≠ some fileExtension) (rooted : start.Rooted)
    (clean : ∀ content t, start.get? (start.place cache) ≠ some (.file content t))
    (templates : ∀ q content, .write q content ∈ events →
      Path.extension? q ≠ some fileExtension)
    (alone : ∀ text, (replay start events).textAt (start.place path) = .ok text →
      Template.Alone text)
    (answer : (load (replay start events) path).1 = .ok s) :
    Template.load (replay start events) path = .ok s ∨
      ∃ before q other later, events = before ++ .load q :: later ∧
        Path.sibling q fileExtension = .ok other ∧ start.place other = start.place cache ∧
        start.place q ≠ start.place path ∧ Template.load (replay start before) q = .ok s := by
  have places (events : List Event) := Files.place_congr (replay_current start events)
  rcases load_eq_ok beside answer with looked | loads
  · obtain ⟨place, e, content, t, located, there, fresh, cached, decoded⟩ := lookUp_eq_some looked
    obtain rfl := Files.place_of_locate located
    obtain ⟨last, p, named, cut⟩ :=
      extension_cached beside (rooted_replay rooted events) there cached
    rw [places events cache] at named cached
    rw [places events path] at located there
    obtain ⟨-, before, first, later, rfl, origin⟩ := origin_of_file clean cached
    have apart : start.place path ≠ start.place cache :=
      (Files.place_sibling_ne beside (by decide) (by decide) (by decide) extended).symm
    have stores := origin.stores
    generalize start.place cache = c at *
    cases stores with
    | @write q content after written =>
      obtain ⟨name, p', place, extension⟩ := Files.extension?_of_write written
      obtain ⟨rfl, -⟩ := List.cons.inj (place.symm.trans named)
      exact absurd (extension.trans cut) (templates q content (by simp))
    | @load q other s' beside' loads =>
      have decoded' : decode (encode s' ++ []) = some s := by rwa [List.append_nil]
      obtain rfl := eq_of_decode decoded'
      by_cases same : start.place q = start.place path
      · left
        obtain ⟨_, text, located', -, reads, -⟩ := Template.addFile_eq_ok.mp loads
        obtain rfl := Files.place_of_locate located'
        rw [places before q, same] at located' reads
        have now := origin.textAt apart reads there fresh
        have plain := alone text now
        rw [Template.load_alone plain located now]
        exact (Template.load_alone plain located' reads).mp loads
      · exact .inr ⟨before, q, other, later, rfl, beside', (places before other).symm, same, loads⟩
  · exact .inl loads

/-- Two templates have the same cache, and one of them is loaded. -/
def shared : List Event :=
  [.write "a.tpl" (Text.utf8 "~[a]\n  x\n"), .write "a.txt" (Text.utf8 "~[b]\n  y\n"),
    .load "a.tpl"]

theorem shared_answers : ∃ s s' : Store, s.aliases.names = ["a"] ∧ s'.aliases.names = ["b"] ∧
    (replay {} shared).textAt ["a.tpl"] = .ok "~[a]\n  x\n" ∧
    Template.load (replay {} shared) "a.txt" = .ok s' ∧
    (load (replay {} shared) "a.tpl").1 = .ok s ∧ (load (replay {} shared) "a.txt").1 = .ok s := by
  let s : Store := ⟨⟨[("a", ⟨"a", .alias, false, [⟨none, none, [⟨[.word "x"], none⟩]⟩]⟩)],
    by decide⟩, ∅, ∅⟩
  let s' : Store := ⟨⟨[("b", ⟨"b", .alias, false, [⟨none, none, [⟨[.word "y"], none⟩]⟩]⟩)],
    by decide⟩, ∅, ∅⟩
  let first : Files := ({} : Files).create [] "a.tpl" (.file (Text.utf8 "~[a]\n  x\n"))
  let second : Files := first.create [] "a.txt" (.file (Text.utf8 "~[b]\n  y\n"))
  let third : Files := second.create [] "a.bin" (.file (encode s))
  have one : Files.Single "a.tpl" := ⟨rfl, by decide, by decide, by decide⟩
  have other : Files.Single "a.txt" := ⟨rfl, by decide, by decide, by decide⟩
  have cache : Files.Single "a.bin" := ⟨rfl, by decide, by decide, by decide⟩
  have reads : Template.read {} "~[a]\n  x\n" = .ok s := by cbv
  have reads' : Template.read {} "~[b]\n  y\n" = .ok s' := by cbv
  have fits : s.Storable := by
    refine ⟨?_, Table.storable_empty, Table.storable_empty⟩
    simp [s, Table.Storable, Definition.Storable, Variation.Storable, Rule.Storable,
      Piece.Storable, Piece.StorableEach, StorableAll, StorableText, lengthLimit]
    decide
  have run : replay {} shared = third := by
    have written : ({} : Files).write "a.tpl" (Text.utf8 "~[a]\n  x\n") = .ok first :=
      one.write rfl rfl rfl
    have written' : first.write "a.txt" (Text.utf8 "~[b]\n  y\n") = .ok second :=
      other.write rfl rfl rfl
    have loads : Template.load second "a.tpl" = .ok s :=
      (Template.load_alone (by decide) (one.locate rfl rfl) (Files.textAt_utf8 rfl rfl)).mpr reads
    have saved : load second "a.tpl" = (.ok s, third) :=
      load_uncached rfl (Files.find_eq_ok.mpr ⟨_, one.locate rfl rfl, rfl⟩) (cache.missing rfl rfl)
        loads (cache.write rfl rfl rfl)
    simp only [replay, shared, List.foldl_cons, List.foldl_nil, Event.apply, written, written',
      saved]
  have kept : third.find "a.bin" = .ok (.file (encode s) 3) :=
    Files.find_eq_ok.mpr ⟨_, cache.locate rfl rfl, rfl⟩
  have held : third.bytes "a.bin" = .ok (encode s) :=
    Files.bytes_eq_ok.mpr ⟨_, 3, cache.locate rfl rfl, rfl, rfl⟩
  have answer : load third "a.tpl" = (.ok s, third) :=
    load_cached rfl (Files.find_eq_ok.mpr ⟨_, one.locate rfl rfl, rfl⟩) kept (by decide) held fits
  have answer' : load third "a.txt" = (.ok s, third) :=
    load_cached rfl (Files.find_eq_ok.mpr ⟨_, other.locate rfl rfl, rfl⟩) kept (by decide) held fits
  rw [run]
  exact ⟨s, s', rfl, rfl, Files.textAt_utf8 rfl rfl,
    (Template.load_alone (by decide) (other.locate rfl rfl) (Files.textAt_utf8 rfl rfl)).mpr reads',
    congrArg Prod.fst answer, congrArg Prod.fst answer'⟩

theorem shared_templates (path : String) (content : List UInt8)
    (there : .write path content ∈ shared) : Path.extension? path ≠ some fileExtension ∧
      ∃ text, content = Text.utf8 text ∧ Template.Alone text := by
  simp only [shared, List.mem_cons, Event.write.injEq, reduceCtorEq, List.not_mem_nil,
    or_false] at there
  rcases there with ⟨rfl, rfl⟩ | ⟨rfl, rfl⟩
  · exact ⟨by decide, _, rfl, by decide⟩
  · exact ⟨by decide, _, rfl, by decide⟩

/-- The template whose cache it is is answered with what it holds. -/
theorem load_current_shared : ∃ s : Store, s.aliases.names = ["a"] ∧
    (load (replay {} shared) "a.tpl").1 = .ok s ∧
      Template.load (replay {} shared) "a.tpl" = .ok s := by
  obtain ⟨s, -, names, -, text, -, answer, -⟩ := shared_answers
  have one : Files.Single "a.tpl" := ⟨rfl, by decide, by decide, by decide⟩
  have cache : Files.Single "a.bin" := ⟨rfl, by decide, by decide, by decide⟩
  refine ⟨s, names, answer, ?_⟩
  rcases @load_current {} shared "a.tpl" "a.bin" s rfl (by decide) nofun
    (by rw [cache.place]; nofun) (fun q content there => (shared_templates q content there).1)
    (fun read same => by
      rw [one.place] at same
      obtain rfl := Except.ok.inj (text.symm.trans same)
      decide) answer with
    loads | ⟨before, q, -, later, whole, -, -, apart, -⟩
  · exact loads
  · have there : .load q ∈ shared := by simp [whole]
    obtain rfl : q = "a.tpl" := by simpa [shared] using there
    exact absurd rfl apart

/-- The other template is answered with the first one's store, though neither includes anything and
neither has the extension of caches. -/
theorem shared_cache_answers : ∃ s s' : Store, s.aliases.names = ["a"] ∧ s'.aliases.names = ["b"] ∧
    (∀ path content, .write path content ∈ shared → Path.extension? path ≠ some fileExtension ∧
      ∃ text, content = Text.utf8 text ∧ Template.Alone text) ∧
    (load (replay {} shared) "a.txt").1 = .ok s ∧
      Template.load (replay {} shared) "a.txt" = .ok s' := by
  obtain ⟨s, s', names, names', -, loads, -, answer⟩ := shared_answers
  exact ⟨s, s', names, names', shared_templates, answer, loads⟩

end Cache
end Phrasebook
