import Phrasebook.Proofs.Sound

/-!
# The grammar of blocks

A block that is read is one that can be written by the grammar, and it says what its parts say.

* `Block.Part`: a name, a variation or a group as it stands in a block;
* `Block.Parts`: a whole block taken apart, with its text, what makes it grammatical, and what it
  says;
* `Text.Whole`: a text in which no backslash stands alone. What closes a block is not escaped just
  when the inside of the block is such a text (`whole_iff`);
* `part_eq_ok`: reading a part takes one off the front of a whole text;
* `read_iff_parts`: the reader accepts the grammatical blocks, each of which is taken apart in one
  way only.
-/

namespace Phrasebook

namespace Block

open Text

/-- A part of a block: escaped characters and ordinary ones, and in an inline group also runs in
brackets, in which everything is ordinary but brackets and backslashes. -/
inductive Part (nests : Bool) : List Char → Prop
  | nil : Part nests []
  | escaped {c rest} (after : Part nests rest) : Part nests ('\\' :: c :: rest)
  | plain {c rest} (ordinary : c ∉ ['\\', '[', ']', '#', '?', '/']) (after : Part nests rest) :
      Part nests (c :: rest)
  | run {inner rest} (nested : nests = true) (inside : Paired inner) (after : Part nests rest) :
      Part nests ('[' :: (inner ++ ']' :: rest))

/-- A block taken apart, each part as it is written. The last one is the group, with the percentage
if there is one. -/
structure Parts where
  kind : Option Kind
  casing : Bool
  name : List Char
  variation : Option (List Char)
  inclusion : Option (List Char × Option (List Char))
deriving DecidableEq

/-- The number that digits stand for. -/
def decimal (digits : List Char) : Nat :=
  digits.foldl (fun n c => 10 * n + (c.toNat - '0'.toNat)) 0

namespace Parts

def writtenPercent : Option (List Char) → List Char
  | none => []
  | some digits => '/' :: digits

def writtenInclusion : Option (List Char × Option (List Char)) → List Char
  | none => []
  | some (group, percent) => '?' :: (group ++ writtenPercent percent)

def writtenVariation : Option (List Char) → List Char
  | none => []
  | some variation => '#' :: variation

/-- What follows the name. -/
def rest (p : Parts) : List Char := writtenVariation p.variation ++ writtenInclusion p.inclusion

def inside (p : Parts) : List Char := (if p.casing then ['&'] else []) ++ (p.name ++ p.rest)

def opening : Option Kind → List Char
  | none => ['[']
  | some kind => [kind.sigil, '[']

def text (p : Parts) : List Char := opening p.kind ++ (p.inside ++ [']'])

/-- Without a sigil a block is an inline group. -/
def nests (p : Parts) : Bool := p.kind.isNone

/-- The name that is meant: a group has its body for it. -/
def title (p : Parts) : List Char := if p.nests then trim p.name else unescape p.name

structure Percentage (digits : List Char) : Prop where
  nonempty : digits ≠ []
  all_digits : ∀ c ∈ digits, c.isDigit = true
  few : decimal digits ≤ 100

structure Grammatical (p : Parts) : Prop where
  name : Part p.nests p.name
  unmarked : p.casing = false → p.name.head? ≠ some '&'
  named : allBlank p.title = false
  variation : ∀ v, p.variation = some v → Part p.nests v ∧ unescape v ≠ []
  group : ∀ g digits, p.inclusion = some (g, digits) → Part p.nests g
  percent : ∀ g digits, p.inclusion = some (g, some digits) → Percentage digits

/-- What the parts say. -/
def block (p : Parts) : Block where
  kind := p.kind
  name := .ofList p.title
  modifiers :=
    { casing := p.casing
      variation := p.variation.map fun v => .ofList (unescape v)
      group := p.inclusion.map fun i => .ofList (unescape i.1)
      percent := p.inclusion.bind fun i => i.2.map fun digits => .ofNat (decimal digits) }

end Parts
end Block

/-! ## Whole texts -/

namespace Text

/-- Every backslash has a character that it makes literal. -/
def Whole : List Char → Prop
  | [] => True
  | '\\' :: _ :: rest => Whole rest
  | c :: rest => c ≠ '\\' ∧ Whole rest

theorem whole_cons {c : Char} (unescaped : c ≠ '\\') (s : List Char) :
    Whole (c :: s) ↔ Whole s := by
  rw [Whole]
  · simp [unescaped]
  · exact fun _ _ same _ => absurd same unescaped

theorem trailing_escaped (c : Char) (s : List Char) :
    trailing ('\\' :: c :: s) % 2 = trailing s % 2 := by
  have pair : trailing ['\\', c] % 2 = 0 :=
    trailing_balanced (e := fun _ => True) (p := fun _ => True) (.escaped trivial .nil)
  rw [show '\\' :: c :: s = ['\\', c] ++ s from rfl, trailing_append]
  split <;> omega

theorem whole_iff (s : List Char) : Whole s ↔ trailing s % 2 = 0 := by
  fun_induction Whole s with
  | case1 => simp [trailing]
  | case2 c rest ih => rw [trailing_escaped, ih]
  | case3 c rest alone ih =>
    by_cases same : c = '\\'
    · obtain rfl := last_of_alone alone same
      simp [same, trailing]
    · rw [trailing_cons_of_ne same, ih]
      simp [same]

theorem Whole.append {s : List Char} (whole : Whole s) (t : List Char) :
    Whole (s ++ t) ↔ Whole t := by
  fun_induction Whole s with
  | case1 => rfl
  | case2 c rest ih => exact ih whole
  | case3 c rest alone ih => rw [List.cons_append, whole_cons whole.1, ih whole.2]

theorem whole_append {e p : Char → Prop} {s : List Char} (hs : Balanced e p s) (t : List Char) :
    Whole (s ++ t) ↔ Whole t :=
  Whole.append ((whole_iff s).mpr (trailing_balanced hs)) t

end Text

namespace Block

open Text

/-! ## Parts -/

variable {nests : Bool} {raw after s : List Char}

theorem ordinary_iff {c : Char} :
    c ∉ ['\\', '[', ']', '#', '?', '/'] ↔ c ∉ structural ∧ isStop c = false := by
  simp only [structural, isStop, List.mem_cons, List.not_mem_nil, Bool.or_eq_false_iff,
    decide_eq_false_iff_not]
  grind

theorem ends_nil : Ends [] := nofun

theorem Part.paired (h : Part nests s) : Paired s := by
  induction h with
  | nil => exact .nil
  | escaped _ ih => exact .escaped trivial ih
  | plain ordinary _ ih =>
    obtain ⟨opens, closes, unescaped⟩ := not_mem_structural.mp (ordinary_iff.mp ordinary).1
    exact .plain unescaped opens closes trivial ih
  | run _ inside _ ih => exact .nested inside ih

theorem Part.read (h : Part nests raw) (ends : Ends after) :
    part nests 0 (raw ++ after) = .ok (raw, after) := by
  induction h with
  | nil => exact part_ends ends
  | escaped _ ih =>
    rw [List.cons_append, List.cons_append, (walk_part nests).escaped, ih]
    rfl
  | @plain c rest ordinary _ ih =>
    obtain ⟨free, passes⟩ := ordinary_iff.mp ordinary
    obtain ⟨opens, closes, unescaped⟩ := not_mem_structural.mp free
    rw [List.cons_append,
      (walk_part nests).passed _ _ _ unescaped (by simp [opens, closes, passes]),
      depthAfter_of_ne opens closes, ih]
    rfl
  | @run inner rest nested inside _ ih =>
    -- the run is balanced, and nothing in it can end the part
    have whole : Balanced (fun _ => True) (fun _ => False) ('[' :: (inner ++ ']' :: [])) :=
      .nested inside .nil
    have front : '[' :: (inner ++ ']' :: rest) ++ after =
        '[' :: (inner ++ ']' :: []) ++ (rest ++ after) := by
      simp
    subst nested
    rw [front, (walk_part true).balanced (by simp) whole (by decide) (by simp), ih]
    simp [Functor.map, Except.map]

/-- The rest of a part from inside of brackets: it closes them, and goes on as a part. -/
def Closing (nests : Bool) : Nat → List Char → Prop
  | 0, s => Part nests s
  | depth + 1, s => ∃ inner rest, s = inner ++ ']' :: rest ∧ Paired inner ∧ Closing nests depth rest

section
variable {depth : Nat}

theorem Closing.escaped (h : Closing nests depth s) (c : Char) :
    Closing nests depth ('\\' :: c :: s) := by
  cases depth with
  | zero => exact .escaped h
  | succ depth =>
    obtain ⟨inner, rest, rfl, inside, later⟩ := h
    exact ⟨'\\' :: c :: inner, rest, rfl, .escaped trivial inside, later⟩

theorem Closing.plain (h : Closing nests depth s) {c : Char} (free : c ∉ structural)
    (passes : depth = 0 → isStop c = false) : Closing nests depth (c :: s) := by
  cases depth with
  | zero => exact .plain (ordinary_iff.mpr ⟨free, passes rfl⟩) h
  | succ depth =>
    obtain ⟨inner, rest, rfl, inside, later⟩ := h
    obtain ⟨opens, closes, unescaped⟩ := not_mem_structural.mp free
    exact ⟨c :: inner, rest, rfl, .plain unescaped opens closes trivial inside, later⟩

theorem Closing.opens (h : Closing nests (depth + 1) s) (nested : nests = true) :
    Closing nests depth ('[' :: s) := by
  obtain ⟨inner, rest, rfl, inside, later⟩ := h
  cases depth with
  | zero => exact .run nested inside later
  | succ depth =>
    obtain ⟨inner', rest', rfl, inside', later'⟩ := later
    exact ⟨'[' :: (inner ++ ']' :: inner'), rest', by simp, .nested inside inside', later'⟩

theorem Closing.closes (h : Closing nests depth s) : Closing nests (depth + 1) (']' :: s) :=
  ⟨[], s, rfl, .nil, h⟩

theorem part_closing (whole : Whole s) (deep : depth ≠ 0 → nests = true)
    (h : part nests depth s = .ok (raw, after)) :
    Closing nests depth raw ∧ s = raw ++ after ∧ Ends after := by
  fun_induction part nests depth s generalizing raw after with
  | case1 =>
    cases h
    exact ⟨.nil, rfl, ends_nil⟩
  | case2 => cases h
  | case3 depth c rest ih =>
    obtain ⟨⟨raw, after⟩, read, same⟩ := map_eq_ok.mp h
    cases same
    obtain ⟨closing, rfl, ends⟩ := ih whole deep read
    exact ⟨closing.escaped c, rfl, ends⟩
  | case4 => cases h
  | case5 => cases h
  | case6 depth c rest _ _ _ here =>
    cases h
    simp only [Bool.and_eq_true, decide_eq_true_eq] at here
    obtain ⟨rfl, stop⟩ := here
    refine ⟨.nil, rfl, ?_⟩
    rintro d ⟨⟩
    exact stop
  | case7 depth c rest alone brackets shallow further ih =>
    obtain ⟨⟨raw, after⟩, read, same⟩ := map_eq_ok.mp h
    cases same
    simp only [Bool.and_eq_true, Bool.or_eq_true, decide_eq_true_eq, Bool.not_eq_true', not_and,
      Bool.not_eq_false] at brackets shallow further
    by_cases unescaped : c = '\\'
    · obtain rfl := last_of_alone alone unescaped
      simp [Whole, unescaped] at whole
    · have later := (whole_cons unescaped rest).mp whole
      by_cases opens : c = '['
      · subst opens
        have nested : nests = true := brackets (.inl rfl)
        obtain ⟨closing, rfl, ends⟩ := ih later (fun _ => nested) read
        exact ⟨closing.opens nested, rfl, ends⟩
      · by_cases closes : c = ']'
        · subst closes
          obtain ⟨above, rfl⟩ := Nat.exists_eq_succ_of_ne_zero (shallow rfl)
          obtain ⟨closing, rfl, ends⟩ := ih later (fun _ => brackets (.inr rfl)) read
          exact ⟨closing.closes, rfl, ends⟩
        · rw [depthAfter_of_ne opens closes] at ih read
          obtain ⟨closing, rfl, ends⟩ := ih later deep read
          have free := not_mem_structural.mpr ⟨opens, closes, unescaped⟩
          exact ⟨closing.plain free (by simpa using further), rfl, ends⟩

end

/-- Reading a part takes one off the front of a whole text, and leaves what begins the next. -/
theorem part_eq_ok (whole : Whole s) :
    part nests 0 s = .ok (raw, after) ↔ Part nests raw ∧ s = raw ++ after ∧ Ends after := by
  constructor
  · exact part_closing whole (fun deep => absurd rfl deep)
  · rintro ⟨h, rfl, ends⟩
    exact h.read ends

/-! ## A block part by part -/

theorem readCasing_eq {casing : Bool} {inner : List Char} :
    readCasing inner = (casing, s) ↔
      inner = (if casing then ['&'] else []) ++ s ∧ (casing = false → s.head? ≠ some '&') := by
  unfold readCasing
  split
  · next rest =>
    cases casing with
    | true => simp
    | false =>
      simp only [Prod.mk.injEq, Bool.true_eq_false, false_and, Bool.false_eq_true, if_false,
        List.nil_append, forall_const, false_iff, not_and]
      rintro rfl free
      exact free rfl
  · next other =>
    cases casing with
    | true =>
      simp only [Prod.mk.injEq, Bool.false_eq_true, false_and, if_true, false_iff, not_and]
      rintro rfl
      exact absurd rfl (other s)
    | false =>
      simp only [Prod.mk.injEq, true_and, Bool.false_eq_true, if_false, List.nil_append,
        forall_const]
      constructor
      · rintro rfl
        refine ⟨rfl, fun front => ?_⟩
        obtain ⟨rest, rfl⟩ := List.head?_eq_some_iff.mp front
        exact other rest rfl
      · exact And.left

theorem readVariation_iff (whole : Whole s) (ends : Ends s) {variation : Option String} :
    readVariation nests s = .ok (variation, after) ↔
      ∃ v, s = Parts.writtenVariation v ++ after ∧
        (∀ raw, v = some raw → Part nests raw ∧ unescape raw ≠ []) ∧
        variation = v.map (fun raw => .ofList (unescape raw)) ∧
        Ends after ∧ after.head? ≠ some '#' := by
  unfold readVariation
  split
  · next rest =>
    have whole' : Whole rest := (whole_cons (by decide) rest).mp whole
    constructor
    · intro h
      obtain ⟨⟨raw, after'⟩, read, h⟩ := bind_eq_ok.mp h
      dsimp only at h
      split at h
      · cases h
      · next filled =>
        split at h
        · cases h
        · next single =>
          cases h
          obtain ⟨part, rfl, ends'⟩ := (part_eq_ok whole').mp read
          refine ⟨some raw, rfl, ?_, rfl, ends', single⟩
          rintro _ ⟨⟩
          exact ⟨part, by simpa using filled⟩
    · rintro ⟨v, same, parts, rfl, ends', single⟩
      cases v with
      | none =>
        obtain rfl : '#' :: rest = after := same
        exact absurd rfl single
      | some raw =>
        obtain ⟨part, filled⟩ := parts raw rfl
        obtain rfl : rest = raw ++ after := by simpa [Parts.writtenVariation] using same
        refine bind_eq_ok.mpr ⟨_, part.read ends', ?_⟩
        simp [filled, single]
  · next other =>
    have front : s.head? ≠ some '#' := fun h => by
      obtain ⟨rest, rfl⟩ := List.head?_eq_some_iff.mp h
      exact other rest rfl
    constructor
    · intro h
      cases h
      exact ⟨none, rfl, nofun, rfl, ends, front⟩
    · rintro ⟨v, same, _, rfl, _, _⟩
      cases v with
      | none =>
        obtain rfl : s = after := same
        rfl
      | some raw =>
        rw [same] at front
        exact absurd rfl front

theorem percent?_eq_some {digits : List Char} {p : UInt8} :
    percent? digits = some p ↔ Parts.Percentage digits ∧ p = .ofNat (decimal digits) := by
  have value : Text.digits? digits =
      if digits.isEmpty || !digits.all Char.isDigit then none else some (decimal digits) := rfl
  simp only [percent?, value, bind, Option.bind]
  constructor
  · intro h
    split at h
    · cases h
    · next n number =>
      split at number
      · cases number
      · next written =>
        obtain rfl := Option.some.inj number
        simp only [Bool.or_eq_true, List.isEmpty_iff, Bool.not_eq_true', not_or,
          Bool.not_eq_false, List.all_eq_true] at written
        dsimp only at h
        split at h
        · next few => exact ⟨⟨written.1, written.2, few⟩, (Option.some.inj h).symm⟩
        · cases h
  · rintro ⟨⟨nonempty, all_digits, few⟩, rfl⟩
    rw [if_neg (by simpa [nonempty] using all_digits)]
    simp [few]

theorem Parts.Percentage.part {digits : List Char} (h : Parts.Percentage digits) :
    Part nests digits := by
  have digit : ∀ c ∈ ['\\', '[', ']', '#', '?', '/'], c.isDigit = false := by simp
  have all := h.all_digits
  clear h
  induction digits with
  | nil => exact .nil
  | cons c rest ih =>
    have here := all c List.mem_cons_self
    refine .plain (fun special => ?_) (ih fun d hd => all d (List.mem_cons_of_mem _ hd))
    simp [digit c special] at here

theorem ends_writtenPercent (d : Option (List Char)) : Ends (Parts.writtenPercent d) := by
  cases d with
  | none => nofun
  | some digits => rintro c ⟨⟩; rfl

theorem readInclusion_iff (whole : Whole s) {group : Option String} {percent : Option UInt8} :
    readInclusion nests s = .ok (group, percent, []) ↔
      ∃ i, s = Parts.writtenInclusion i ∧ (∀ g d, i = some (g, d) → Part nests g) ∧
        (∀ g digits, i = some (g, some digits) → Parts.Percentage digits) ∧
        group = i.map (fun i => .ofList (unescape i.1)) ∧
        percent = i.bind fun i => i.2.map fun digits => .ofNat (decimal digits) := by
  constructor
  · intro h
    unfold readInclusion at h
    split at h
    · cases h
    · next rest =>
      have whole' : Whole rest := (whole_cons (by decide) rest).mp whole
      obtain ⟨⟨raw, later⟩, read, more⟩ := bind_eq_ok.mp h
      obtain ⟨part, same, -⟩ := (part_eq_ok whole').mp read
      dsimp only at more
      split at more
      · cases more
      · cases more
      · next behind =>
        have whole'' : Whole behind := by
          rwa [same, whole_append part.paired, whole_cons (by decide)] at whole'
        obtain ⟨⟨digits, nothing⟩, read', last⟩ := bind_eq_ok.mp more
        obtain ⟨_, rfl, _⟩ := (part_eq_ok whole'').mp read'
        dsimp only at last
        split at last
        · next p number =>
          cases last
          obtain ⟨percentage, rfl⟩ := percent?_eq_some.mp number
          refine ⟨some (raw, some digits), by simp [same, Parts.writtenInclusion,
            Parts.writtenPercent], ?_, ?_, rfl, rfl⟩
          · rintro _ _ ⟨⟩
            exact part
          · rintro _ _ ⟨⟩
            exact percentage
        · cases last
      · cases more
        refine ⟨some (raw, none), by simp [same, Parts.writtenInclusion, Parts.writtenPercent],
          ?_, nofun, rfl, rfl⟩
        rintro _ _ ⟨⟩
        exact part
    · cases h
      exact ⟨none, rfl, nofun, nofun, rfl, rfl⟩
  · rintro ⟨i, rfl, parts, percentages, rfl, rfl⟩
    cases i with
    | none => rfl
    | some i =>
      obtain ⟨g, d⟩ := i
      have read := (parts g d rfl).read (ends_writtenPercent d)
      refine bind_eq_ok.mpr ⟨_, read, ?_⟩
      cases d with
      | none => rfl
      | some digits =>
        have percentage := percentages g digits rfl
        have number := percent?_eq_some.mpr ⟨percentage, rfl⟩
        have read' : part nests 0 (digits ++ []) = .ok (digits, []) := percentage.part.read ends_nil
        rw [List.append_nil] at read'
        simp [Parts.writtenPercent, read', number, bind, Except.bind]

/-! ## Whole blocks -/

theorem ends_writtenInclusion (i : Option (List Char × Option (List Char))) :
    Ends (Parts.writtenInclusion i) := by
  cases i with
  | none => nofun
  | some i => rintro c ⟨⟩; rfl

theorem ends_rest (p : Parts) : Ends p.rest := by
  unfold Parts.rest Parts.writtenVariation
  cases p.variation with
  | none => exact ends_writtenInclusion _
  | some v => rintro c ⟨⟩; rfl

theorem writtenInclusion_head (i : Option (List Char × Option (List Char))) :
    (Parts.writtenInclusion i).head? ≠ some '#' := by
  cases i with
  | none => nofun
  | some i => nofun

namespace Parts

variable {p q : Parts}

theorem Grammatical.name_ne_nil (h : p.Grammatical) : p.name ≠ [] := by
  intro none
  have named := h.named
  unfold title at named
  rw [none] at named
  split at named <;> cases named

theorem Grammatical.readCasing (h : p.Grammatical) :
    Block.readCasing p.inside = (p.casing, p.name ++ p.rest) := by
  refine readCasing_eq.mpr ⟨rfl, fun plain => ?_⟩
  have unmarked := h.unmarked plain
  cases same : p.name with
  | nil => exact absurd same h.name_ne_nil
  | cons c name => rwa [same] at unmarked

theorem Grammatical.whole_inclusion (h : p.Grammatical) : Whole (writtenInclusion p.inclusion) := by
  cases same : p.inclusion with
  | none => trivial
  | some i =>
    obtain ⟨g, d⟩ := i
    rw [writtenInclusion, whole_cons (by decide), whole_append (h.group g d same).paired]
    cases d with
    | none => trivial
    | some digits =>
      have plain : Part true digits := (h.percent g digits same).part
      rw [writtenPercent, whole_cons (by decide), ← List.append_nil digits,
        whole_append plain.paired]
      trivial

theorem Grammatical.whole_rest (h : p.Grammatical) : Whole p.rest := by
  unfold rest
  cases same : p.variation with
  | none => exact h.whole_inclusion
  | some v =>
    rw [writtenVariation, List.cons_append, whole_cons (by decide),
      whole_append (h.variation v same).1.paired]
    exact h.whole_inclusion

theorem Grammatical.whole_inside (h : p.Grammatical) : Whole p.inside := by
  have named : Whole (p.name ++ p.rest) := (whole_append h.name.paired _).mpr h.whole_rest
  unfold inside
  split
  · exact (whole_cons (by decide) _).mpr named
  · exact named

end Parts

theorem ofInside_iff {kind : Option Kind} {inner : List Char} (whole : Whole inner) {b : Block} :
    ofInside kind inner = .ok b ↔
      ∃ p : Parts, p.Grammatical ∧ p.kind = kind ∧ p.inside = inner ∧ p.block = b := by
  rw [ofInside_eq_ok]
  constructor
  · rintro ⟨name, s, variation, s', group, percent, named, varied, included, rfl⟩
    obtain ⟨cased, unmarked⟩ := readCasing_eq.mp (Prod.eta (readCasing inner)).symm
    have whole₀ : Whole (readCasing inner).2 := by
      rw [cased] at whole
      split at whole
      · exact (whole_cons (by decide) _).mp whole
      · exact whole
    obtain ⟨raw, read, rfl, some⟩ := readName_eq_ok.mp named
    obtain ⟨part, front, ends⟩ := (part_eq_ok whole₀).mp read
    have whole₁ : Whole s := by rwa [front, whole_append part.paired] at whole₀
    obtain ⟨v, rfl, parts, rfl, ends', single⟩ := (readVariation_iff whole₁ ends).mp varied
    have whole₂ : Whole s' := by
      cases v with
      | none => exact whole₁
      | some v =>
        rwa [Parts.writtenVariation, List.cons_append, whole_cons (by decide),
          whole_append (parts v rfl).1.paired] at whole₁
    obtain ⟨i, rfl, groups, percents, rfl, rfl⟩ := (readInclusion_iff whole₂).mp included
    let p : Parts := ⟨kind, (readCasing inner).1, raw, v, i⟩
    have grammatical : p.Grammatical := by
      refine ⟨part, fun plain => ?_, some, parts, groups, percents⟩
      intro marked
      obtain ⟨rest, same⟩ := List.head?_eq_some_iff.mp marked
      obtain rfl : raw = '&' :: rest := same
      exact unmarked plain (by rw [front]; rfl)
    refine ⟨p, grammatical, rfl, ?_, rfl⟩
    rw [cased, front]
    rfl
  · rintro ⟨p, h, rfl, rfl, rfl⟩
    rw [h.readCasing]
    exact ⟨_, _, _, _, _, _,
      readName_eq_ok.mpr ⟨_, h.name.read (ends_rest p), rfl, h.named⟩,
      (readVariation_iff h.whole_rest (ends_rest p)).mpr ⟨p.variation, rfl, h.variation, rfl,
        ends_writtenInclusion _, writtenInclusion_head _⟩,
      (readInclusion_iff h.whole_inclusion).mpr ⟨p.inclusion, rfl, h.group, h.percent, rfl, rfl⟩,
      rfl⟩

theorem inside?_eq_some {inner : List Char} :
    inside? s = some inner ↔ s = inner ++ [']'] ∧ Whole inner := by
  rw [whole_iff]
  simp only [inside?, trailing, Bool.and_eq_true, decide_eq_true_eq, beq_iff_eq]
  constructor
  · intro h
    split at h
    · next closed =>
      obtain rfl := Option.some.inj h
      obtain ⟨front, rfl⟩ := List.getLast?_eq_some_iff.mp closed.1
      exact ⟨by rw [List.dropLast_concat], closed.2⟩
    · cases h
  · rintro ⟨rfl, even⟩
    simp [even]

theorem kind?_eq_ok {text inside : List Char} {kind : Option Kind} :
    (kind? text = .ok kind ∧ (if kind.isNone then text else text.tail) = '[' :: inside) ↔
      text = Parts.opening kind ++ inside := by
  constructor
  · rintro ⟨h, bracket⟩
    unfold kind? at h
    split at h
    · cases h
      exact bracket
    · next c rest _ =>
      split at h
      · next k sigil =>
        cases h
        rw [Kind.sigil_of_ofSigil? sigil]
        exact congrArg (k.sigil :: ·) bracket
      · cases h
    · cases h
  · rintro rfl
    cases kind with
    | none => exact ⟨rfl, rfl⟩
    | some kind => cases kind <;> exact ⟨rfl, rfl⟩

theorem read_eq_ok_iff {text : List Char} {b : Block} :
    read text = .ok b ↔ ∃ kind inner, text = Parts.opening kind ++ (inner ++ [']']) ∧
      Whole inner ∧ ofInside kind inner = .ok b := by
  constructor
  · intro h
    obtain ⟨kind, known, h⟩ := bind_eq_ok.mp h
    dsimp only at h
    split at h
    · next rest bracket =>
      split at h
      · cases h
      · next inner inside =>
        obtain ⟨rfl, whole⟩ := inside?_eq_some.mp inside
        split at h
        · cases h
        · next reads =>
          cases h
          exact ⟨kind, inner, kind?_eq_ok.mp ⟨known, bracket⟩, whole, reads⟩
    · cases h
  · rintro ⟨kind, inner, same, whole, reads⟩
    obtain ⟨known, bracket⟩ := kind?_eq_ok.mpr same
    refine bind_eq_ok.mpr ⟨kind, known, ?_⟩
    have inside : inside? (inner ++ [']']) = some inner := inside?_eq_some.mpr ⟨rfl, whole⟩
    simp only [bracket, inside, reads]

/-! ## One way only -/

namespace Parts

variable {p q : Parts}

theorem opening_inj {k k' : Option Kind} {s t : List Char}
    (same : opening k ++ s = opening k' ++ t) : k = k' ∧ s = t := by
  obtain ⟨known, bracket⟩ := kind?_eq_ok.mpr (Eq.refl (opening k ++ s))
  obtain ⟨known', bracket'⟩ := kind?_eq_ok.mpr same
  obtain rfl := Except.ok.inj (known.symm.trans known')
  exact ⟨rfl, (List.cons.inj (bracket.symm.trans bracket')).2⟩

theorem writtenPercent_inj {d d' : Option (List Char)}
    (same : writtenPercent d = writtenPercent d') : d = d' := by
  cases d <;> cases d' <;> simp_all [writtenPercent]

theorem writtenInclusion_inj {nests : Bool} {i i' : Option (List Char × Option (List Char))}
    (hi : ∀ g d, i = some (g, d) → Part nests g) (hi' : ∀ g d, i' = some (g, d) → Part nests g)
    (same : writtenInclusion i = writtenInclusion i') : i = i' := by
  cases i with
  | none => cases i' with
    | none => rfl
    | some i' => cases same
  | some i => cases i' with
    | none => cases same
    | some i' =>
      obtain ⟨g, d⟩ := i
      obtain ⟨g', d'⟩ := i'
      have read := (hi g d rfl).read (ends_writtenPercent d)
      have read' := (hi' g' d' rfl).read (ends_writtenPercent d')
      rw [List.cons.inj same |>.2, read'] at read
      obtain ⟨rfl, later⟩ := Prod.mk.inj (Except.ok.inj read)
      rw [writtenPercent_inj later]

theorem Grammatical.rest_inj (hp : p.Grammatical) (hq : q.Grammatical) (nests : p.nests = q.nests)
    (same : p.rest = q.rest) : p.variation = q.variation ∧ p.inclusion = q.inclusion := by
  have inclusion : writtenInclusion p.inclusion = writtenInclusion q.inclusion →
      p.inclusion = q.inclusion :=
    writtenInclusion_inj hp.group fun g d h => nests ▸ hq.group g d h
  unfold rest at same
  cases hv : p.variation with
  | none =>
    cases hv' : q.variation with
    | none =>
      rw [hv, hv'] at same
      exact ⟨rfl, inclusion same⟩
    | some v' =>
      rw [hv, hv'] at same
      exact absurd (congrArg List.head? same) (writtenInclusion_head _)
  | some v =>
    cases hv' : q.variation with
    | none =>
      rw [hv, hv'] at same
      exact absurd (congrArg List.head? same).symm (writtenInclusion_head _)
    | some v' =>
      rw [hv, hv'] at same
      have behind : v ++ writtenInclusion p.inclusion = v' ++ writtenInclusion q.inclusion :=
        (List.cons.inj same).2
      have read := (hp.variation v hv).1.read (ends_writtenInclusion p.inclusion)
      have read' := (hq.variation v' hv').1.read (ends_writtenInclusion q.inclusion)
      rw [behind, nests, read'] at read
      obtain ⟨rfl, later⟩ := Prod.mk.inj (Except.ok.inj read)
      exact ⟨rfl, inclusion later.symm⟩

/-- The parts are read off the text one after the other, and so there is no other way to take it
apart. -/
theorem Grammatical.eq_of_text (hp : p.Grammatical) (hq : q.Grammatical) (same : p.text = q.text) :
    p = q := by
  obtain ⟨kinds, closed⟩ := opening_inj same
  have nests : p.nests = q.nests := congrArg Option.isNone kinds
  have inside : p.inside = q.inside := List.append_cancel_right closed
  have casing := hp.readCasing
  rw [inside, hq.readCasing] at casing
  obtain ⟨cased, named⟩ := Prod.mk.inj casing
  have name := hp.name.read (ends_rest p)
  rw [← named, nests, hq.name.read (ends_rest q)] at name
  obtain ⟨names, rests⟩ := Prod.mk.inj (Except.ok.inj name)
  obtain ⟨variations, inclusions⟩ := hp.rest_inj hq nests rests.symm
  cases p
  cases q
  simp_all

end Parts

/-- **The reader of blocks accepts its grammar.** A text is read as a block just when it is
grammatical. It can then be taken apart in one way only, and the block is what the parts say. -/
theorem read_iff_parts (text : List Char) (b : Block) :
    read text = .ok b ↔ ∃ p : Parts, p.Grammatical ∧ p.text = text ∧ p.block = b ∧
      ∀ q : Parts, q.Grammatical → q.text = text → q = p := by
  rw [read_eq_ok_iff]
  constructor
  · rintro ⟨kind, inner, rfl, whole, reads⟩
    obtain ⟨p, h, rfl, rfl, rfl⟩ := (ofInside_iff whole).mp reads
    exact ⟨p, h, rfl, rfl, fun q hq same => hq.eq_of_text h same⟩
  · rintro ⟨p, h, rfl, rfl, _⟩
    exact ⟨p.kind, p.inside, rfl, h.whole_inside,
      (ofInside_iff h.whole_inside).mpr ⟨p, h, rfl, rfl, rfl⟩⟩

end Block
end Phrasebook
