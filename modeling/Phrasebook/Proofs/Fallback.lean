import Phrasebook.Proofs.Places

/-!
# Falling back on the template

What stands in the way of a cache does not stand in the way of its template, with one exception.

* `Cache.lookUp_found`: what is found where a cache would be;
* `Cache.load_answers`: where the template loads, loading through the cache fails just for what is
  in the cache's place, not older than the template, and cannot be read.
-/

namespace Phrasebook

namespace Files

variable {fs : Files} {path : String} {place : Place} {e : Entry}

theorem find_eq_ok : fs.find path = .ok e ↔
    ∃ place, fs.locate path = .ok place ∧ fs.get? place = some e := by
  rw [find, bind_eq_ok]
  refine exists_congr fun place => and_congr_right fun _ => ?_
  cases fs.get? place <;> simp

theorem bytes_located (located : fs.locate path = .ok place) (there : fs.get? place = some e) :
    fs.bytes path = if fs.mayRead place then e.bytes else .error .denied := by
  rw [bytes, located]
  change fs.bytesAt place = _
  rw [bytesAt, there]

theorem bytes_eq_ok {content : List UInt8} : fs.bytes path = .ok content ↔
    ∃ place t, fs.locate path = .ok place ∧ fs.mayRead place = true ∧
      fs.get? place = some (.file content t) := by
  simp [bytes, bind_eq_ok, bytesAt_eq_ok]

theorem isStale_found {derived source : String} (found : fs.find source = .ok e) :
    fs.isStale derived source =
      match fs.find derived with
      | .ok d => .ok (d.changed < e.changed)
      | .error _ => .ok true := by
  rw [isStale, found]
  rfl

end Files

namespace Cache

variable {fs : Files} {path cache : String} {e : Entry} {s : Store}

/-- A cache that is older than its template is not looked at, and neither is one that cannot be
found. -/
theorem lookUp_found (found : fs.find path = .ok e) : lookUp fs cache path =
    match fs.find cache with
    | .error _ => .ok none
    | .ok d =>
      if d.changed < e.changed then .ok none
      else
        match fs.bytes cache with
        | .error fault => .error (.file fault)
        | .ok content => .ok (decode content) := by
  rw [lookUp, Files.isStale_found found]
  cases fs.find cache with
  | error fault => rfl
  | ok d =>
    by_cases older : d.changed < e.changed
    · simp only [older, decide_true, if_true]
      rfl
    · simp only [older, decide_false, if_false]
      cases fs.bytes cache <;> rfl

theorem load_of_lookUp (beside : Path.sibling path fileExtension = .ok cache)
    (loads : Template.load fs path = .ok s) : (load fs path).1 =
    match lookUp fs cache path with
    | .error e => .error e
    | .ok (some s') => .ok s'
    | .ok none => .ok s := by
  rw [load, beside]
  dsimp only
  rcases lookUp fs cache path with e | _ | s'
  · rfl
  · dsimp only
    rw [loads]
  · rfl

/-- **What a cache cannot give, its template does**, but for one thing in the cache's place: what is
not older than the template and cannot be read, as it is a directory or may not be. -/
theorem load_answers (beside : Path.sibling path fileExtension = .ok cache)
    (loads : Template.load fs path = .ok s) : ∃ content changed,
    fs.find path = .ok (.file content changed) ∧
      ((∃ s', (load fs path).1 = .ok s') ↔
        ¬ ∃ place d, fs.locate cache = .ok place ∧ fs.get? place = some d ∧ changed ≤ d.changed ∧
          (d.isDirectory = true ∨ fs.mayRead place = false)) ∧
      ∀ e, (load fs path).1 = .error e → ∃ place, fs.locate cache = .ok place ∧
        e = .file (if fs.mayRead place then .isDirectory else .denied) := by
  obtain ⟨place, text, located, -, reads, -⟩ := Template.addFile_eq_ok.mp loads
  obtain ⟨content, changed, there⟩ := Files.file_of_textAt reads
  have found : fs.find path = .ok (.file content changed) :=
    Files.find_eq_ok.mpr ⟨place, located, there⟩
  refine ⟨content, changed, found, ?_⟩
  rw [load_of_lookUp beside loads, lookUp_found found]
  cases kept : fs.find cache with
  | error fault =>
    refine ⟨iff_of_true ⟨s, rfl⟩ ?_, nofun⟩
    rintro ⟨place, d, located, there, -⟩
    cases kept.symm.trans (Files.find_eq_ok.mpr ⟨place, located, there⟩)
  | ok d =>
    obtain ⟨place, located, there⟩ := Files.find_eq_ok.mp kept
    rw [Files.bytes_located located there]
    by_cases older : d.changed < changed
    · simp [located, there, older, Nat.not_le.mpr older]
    · dsimp only
      rw [Entry.changed_file, if_neg older]
      cases may : fs.mayRead place with
      | false => simp [located, there, may, Nat.not_lt.mp older]
      | true =>
        cases d with
        | file bytes t =>
          cases decoded : decode bytes <;>
            simp [located, there, may, Entry.isDirectory, Entry.bytes, decoded]
        | directory t =>
          have fresh : changed ≤ t := Nat.not_lt.mp older
          simp [located, there, fresh, may, Entry.isDirectory, Entry.bytes]

/-- A template, and something in the place of its cache. -/
def besideCache (cache : Entry) (unreadable : List Place) : Files where
  entries := [(["a.bin"], cache), (["a.tpl"], .file (Text.utf8 "~[a]\n  x\n") 2)]
  unreadable

section
variable {d : Entry} {unreadable : List Place}

theorem find_template :
    (besideCache d unreadable).find "a.tpl" = .ok (.file (Text.utf8 "~[a]\n  x\n") 2) := by
  have single : Files.Single "a.tpl" := ⟨rfl, by decide, by decide, by decide⟩
  exact Files.find_eq_ok.mpr ⟨_, single.locate rfl rfl, rfl⟩

theorem locate_cache : (besideCache d unreadable).locate "a.bin" = .ok ["a.bin"] := by
  have single : Files.Single "a.bin" := ⟨rfl, by decide, by decide, by decide⟩
  exact single.locate rfl rfl

theorem template_loads (may : (besideCache d unreadable).mayRead ["a.tpl"] = true) :
    ∃ s, Template.load (besideCache d unreadable) "a.tpl" = .ok s := by
  have single : Files.Single "a.tpl" := ⟨rfl, by decide, by decide, by decide⟩
  let word : Definition := ⟨"a", .alias, false, [⟨none, none, [⟨[.word "x"], none⟩]⟩]⟩
  refine ⟨⟨⟨[("a", word)], by decide⟩, ∅, ∅⟩, ?_⟩
  rw [Template.load, Template.addFile_opened (single.locate rfl rfl) List.not_mem_nil
    (Files.textAt_utf8 rfl may)]
  cbv

/-- What cannot be read in the place of the cache, and is not older, is told of. -/
theorem load_unreadable {fault : FileFault} (late : 2 ≤ d.changed)
    (may : (besideCache d unreadable).mayRead ["a.tpl"] = true)
    (unread : (besideCache d unreadable).bytes "a.bin" = .error fault) :
    (load (besideCache d unreadable) "a.tpl").1 = .error (.file fault) := by
  obtain ⟨s, loads⟩ := template_loads may
  have beside : Path.sibling "a.tpl" fileExtension = .ok "a.bin" := rfl
  have there : (besideCache d unreadable).find "a.bin" = .ok d :=
    Files.find_eq_ok.mpr ⟨_, locate_cache, rfl⟩
  rw [load_of_lookUp beside loads, lookUp_found find_template, there, unread]
  simp [Nat.not_lt.mpr late]

end

/-- A directory that was there before its template is no hindrance. -/
theorem load_answers_greeting : ∃ (fs : Files) (s s' : Store),
    fs.find "a.bin" = .ok (.directory 1) ∧
      fs.find "a.tpl" = .ok (.file (Text.utf8 "~[a]\n  x\n") 2) ∧
      Template.load fs "a.tpl" = .ok s ∧ (load fs "a.tpl").1 = .ok s' := by
  obtain ⟨s, loads⟩ := @template_loads (.directory 1) [] rfl
  have beside : Path.sibling "a.tpl" fileExtension = .ok "a.bin" := rfl
  obtain ⟨_, changed, found, answers, -⟩ := load_answers beside loads
  obtain ⟨-, rfl⟩ := Entry.file.inj (Except.ok.inj (find_template.symm.trans found))
  obtain ⟨s', answer⟩ := answers.mpr <| by
    rintro ⟨place, d, located, there, late, -⟩
    obtain rfl := Except.ok.inj (locate_cache.symm.trans located)
    cases there
    exact absurd late (by decide)
  exact ⟨_, s, s', Files.find_eq_ok.mpr ⟨_, locate_cache, rfl⟩, find_template, loads, answer⟩

/-- A directory that was made after the template cannot be read, nor can a file that may not be. The
template is not looked at any more. -/
theorem unreadable_cache_fails : ∃ (fs fs' : Files) (s s' : Store) (content : List UInt8),
    Path.sibling "a.tpl" fileExtension = .ok "a.bin" ∧
      fs.find "a.bin" = .ok (.directory 3) ∧ Template.load fs "a.tpl" = .ok s ∧
      (load fs "a.tpl").1 = .error (.file .isDirectory) ∧
      fs'.find "a.bin" = .ok (.file content 3) ∧ Template.load fs' "a.tpl" = .ok s' ∧
      (load fs' "a.tpl").1 = .error (.file .denied) := by
  obtain ⟨s, loads⟩ := @template_loads (.directory 3) [] rfl
  obtain ⟨s', loads'⟩ := @template_loads (.file [] 3) [["a.bin"]] rfl
  refine ⟨_, _, s, s', [], rfl, Files.find_eq_ok.mpr ⟨_, locate_cache, rfl⟩, loads, ?_,
    Files.find_eq_ok.mpr ⟨_, locate_cache, rfl⟩, loads', ?_⟩
  · exact load_unreadable (by decide) rfl (Files.bytes_located locate_cache rfl)
  · exact load_unreadable (by decide) rfl (Files.bytes_located locate_cache rfl)

end Cache
end Phrasebook
