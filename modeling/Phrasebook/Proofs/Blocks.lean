import Mathlib.Data.List.Basic
import Phrasebook.Proofs.Attempts
import Phrasebook.Proofs.Spans

/-!
# The block of each variation

What a request gives comes from the variations that it means, one after the other. Each gives a
block of examples, from the words that the one before it left.

* `Generator.firsts`: fragments without those whose text was there before;
* `keepNew_eq`: that is what enumerating keeps;
* `Generator.Contributes`: the three kinds of blocks, and which variation has which;
* `block_listed`: few combinations are enumerated without fail and without a word;
* `generate_blocks`: every request that succeeds is made of such blocks.
-/

namespace Phrasebook.Generator

/-! ## Each text once -/

/-- The fragments without those whose text occurred earlier. -/
def firsts (fragments : List Fragment) : List Fragment :=
  fragments.eraseDupsBy fun f g => f.text == g.text

theorem firsts_cons (f : Fragment) (rest : List Fragment) :
    firsts (f :: rest) = f :: firsts (rest.filter (·.text ≠ f.text)) := by
  rw [firsts, List.eraseDupsBy_cons, firsts]
  simp only [beq_eq_false_iff_ne]

theorem firsts_induction {P : List Fragment → Prop} (nil : P [])
    (cons : ∀ f rest, P (rest.filter (·.text ≠ f.text)) → P (f :: rest)) :
    ∀ fragments, P fragments
  | [] => nil
  | f :: rest => cons f rest (firsts_induction nil cons _)
termination_by fragments => fragments.length
decreasing_by exact Nat.lt_succ_of_le (List.length_filter_le _ rest)

theorem firsts_sublist (fragments : List Fragment) : (firsts fragments).Sublist fragments := by
  induction fragments using firsts_induction with
  | nil => exact List.Sublist.slnil
  | cons f rest ih =>
    rw [firsts_cons]
    exact (ih.trans List.filter_sublist).cons_cons f

theorem nodup_firsts (fragments : List Fragment) : ((firsts fragments).map (·.text)).Nodup := by
  induction fragments using firsts_induction with
  | nil => exact List.nodup_nil
  | cons f rest ih =>
    rw [firsts_cons, List.map_cons, List.nodup_cons]
    refine ⟨fun again => ?_, ih⟩
    obtain ⟨g, later, same⟩ := List.mem_map.mp again
    have left := (List.mem_filter.mp ((firsts_sublist _).subset later)).2
    exact of_decide_eq_true left same

theorem exists_firsts {fragments : List Fragment} {f : Fragment} (hf : f ∈ fragments) :
    ∃ g ∈ firsts fragments, g.text = f.text := by
  induction fragments using firsts_induction with
  | nil => cases hf
  | cons first rest ih =>
    rw [firsts_cons]
    by_cases same : f.text = first.text
    · exact ⟨first, List.mem_cons_self, same.symm⟩
    · have later : f ∈ rest := by
        rcases List.mem_cons.mp hf with rfl | later
        · exact absurd rfl same
        · exact later
      obtain ⟨g, hg, text⟩ := ih (List.mem_filter.mpr ⟨later, decide_eq_true same⟩)
      exact ⟨g, List.mem_cons_of_mem _ hg, text⟩

theorem keepNew_eq (seen : Std.HashSet String) (kept : Array Fragment) (rest : List Fragment) :
    keepNew seen kept rest = kept.toList ++ firsts (rest.filter (·.text ∉ seen)) := by
  fun_induction keepNew seen kept rest with
  | case1 seen kept => simp [firsts]
  | case2 seen kept f rest known ih =>
    have dropped : ¬ decide (f.text ∉ seen) = true := by simpa using known
    rw [ih, List.filter_cons, if_neg dropped]
  | case3 seen kept f rest unknown ih =>
    have taken : decide (f.text ∉ seen) = true := by simpa using unknown
    have others : rest.filter (·.text ∉ seen.insert f.text) =
        (rest.filter (·.text ∉ seen)).filter (·.text ≠ f.text) := by
      rw [List.filter_filter]
      refine List.filter_congr fun g _ => ?_
      grind
    rw [ih, List.filter_cons, if_pos taken, firsts_cons, others, Array.toList_push,
      List.append_assoc, List.singleton_append]

theorem distinct_eq_firsts (fragments : List Fragment) : distinct fragments = firsts fragments := by
  rw [distinct, keepNew_eq]
  simp

/-! ## Blocks -/

/-- The target that a variation of an intent is expanded as. -/
def bodyOf (intent : String) (v : Variation) : Target := ⟨.intent, intent, v.name⟩

/-- The exact number of combinations of a variation, its own target being on the trail. -/
def Amounts (g : Generator) (intent : String) (v : Variation) (n : Nat) : Prop :=
  g.store.SpansRules [bodyOf intent v] v.rules n

/-- So many examples are sampled, each by an attempt of its own. -/
def Samples (g : Generator) (intent : String) (v : Variation) (count : UInt64) (w : Words)
    (examples : List Example) (last : Words) : Prop :=
  ∃ made dropped, examples.length = count.toNat ∧
    Sampled (g.attempt intent (some (bodyOf intent v)) v.rules) count.toNat
      (min (count.toNat * g.settings.dedupFactor.toNat) 0xFFFFFFFFFFFFFFFF) w made examples dropped
      last

/-- What a variation adds to a request, from these words to those. -/
inductive Contributes (g : Generator) (intent : String) (v : Variation) (w : Words) :
    List Example → Words → Prop
  | counted {count examples last} (declared : v.count = some count)
      (sampled : g.Samples intent v count w examples last) :
      Contributes g intent v w examples last
  | listed {n fragments} (uncounted : v.count = none) (amounts : g.Amounts intent v n)
      (few : n ≤ g.settings.maxEnumeration.toNat)
      (listed : g.store.listRules [bodyOf intent v] .intent intent v.rules = .ok fragments) :
      Contributes g intent v w ((firsts fragments).map (·.toExample intent)) w
  | fallback {examples last} (uncounted : v.count = none)
      (many : ∀ n, g.Amounts intent v n → g.settings.maxEnumeration.toNat < n)
      (sampled : g.Samples intent v g.settings.fallback w examples last) :
      Contributes g intent v w examples last

/-- A block for each variation, in their order. -/
inductive Blocks (g : Generator) (intent : String) :
    List Variation → Words → List (List Example) → Words → Prop
  | nil {w} : Blocks g intent [] w [] w
  | cons {v rest w first next others last} (block : g.Contributes intent v w first next)
      (after : Blocks g intent rest next others last) :
      Blocks g intent (v :: rest) w (first :: others) last

variable {g : Generator} {intent : String} {v : Variation} {w last : Words}
  {examples : List Example}

theorem fits_capped {n : Nat} {limit : UInt64} (small : limit < 0xFFFFFFFFFFFFFFFF) :
    (Combinations.finite (capped n)).fits limit = true ↔ n ≤ limit.toNat :=
  Combinations.fits_capped.trans (or_iff_left (UInt64.ne_of_lt small))

theorem samples_of_sample {count : UInt64}
    (h : g.sample intent (some (bodyOf intent v)) v.rules count w = (.ok examples, last)) :
    g.Samples intent v count w examples last := by
  rcases sample_cases g intent (some (bodyOf intent v)) v.rules count w with
    ⟨-, refused⟩ | overflows | ⟨outcome, last', sampled, ends⟩
  · cases h.symm.trans refused
  · cases h.symm.trans overflows
  · obtain ⟨same, rfl⟩ := Prod.mk.inj (h.symm.trans sampled)
    obtain rfl := Answer.of_eq_ok.mp same.symm
    cases ends with
    | enough run all => exact ⟨_, _, all, run⟩

/-- Where the rules have few combinations, all of them are listed. -/
theorem listed_of_amounts (small : g.settings.maxEnumeration < 0xFFFFFFFFFFFFFFFF) {n : Nat}
    (amounts : g.Amounts intent v n) (few : n ≤ g.settings.maxEnumeration.toNat) :
    ∃ fragments, g.store.listRules [bodyOf intent v] .intent intent v.rules = .ok fragments ∧
      fragments.length = n := by
  have counted := Store.countRules_eq_finite.mpr ⟨n, amounts, rfl⟩
  have tally := Store.countRules_tally .intent intent
    fun r (_ : r ∈ v.rules) => Store.countPieces_tally g.store [bodyOf intent v] r.pieces
  rw [counted] at tally
  generalize g.store.listRules [bodyOf intent v] .intent intent v.rules = listed at tally ⊢
  generalize size : capped n = c at tally
  cases tally with
  | finite fragments =>
    have below : g.settings.maxEnumeration.toNat < 0xFFFFFFFFFFFFFFFF :=
      UInt64.lt_iff_toNat_lt.mp small
    have lengths := congrArg UInt64.toNat size
    rw [toNat_capped, toNat_capped] at lengths
    exact ⟨fragments, rfl, by omega⟩

/-- Few combinations are enumerated: it takes no word, and nothing can go wrong. -/
theorem block_listed (small : g.settings.maxEnumeration < 0xFFFFFFFFFFFFFFFF)
    (uncounted : v.count = none) {n : Nat} (amounts : g.Amounts intent v n)
    (few : n ≤ g.settings.maxEnumeration.toNat) :
    ∃ fragments, g.store.listRules [bodyOf intent v] .intent intent v.rules = .ok fragments ∧
      fragments.length = n ∧
      ∀ w, g.block intent v w = (.ok ((firsts fragments).map (·.toExample intent)), w) := by
  obtain ⟨fragments, listed, all⟩ := listed_of_amounts small amounts few
  have counted : g.store.countRules [bodyOf intent v] v.rules = .ok (.finite (capped n)) :=
    Store.countRules_eq_finite.mpr ⟨n, amounts, rfl⟩
  refine ⟨fragments, listed, all, fun w => ?_⟩
  have fits := (fits_capped (n := n) small).mpr few
  simp only [bodyOf] at counted listed
  simp only [block, uncounted, exhaust, counted, fits, if_true, listed, Except.map,
    Answer.of_ok, distinct_eq_firsts]

theorem block_contributes (small : g.settings.maxEnumeration < 0xFFFFFFFFFFFFFFFF)
    (h : g.block intent v w = (.ok examples, last)) : g.Contributes intent v w examples last := by
  cases declared : v.count with
  | some count =>
    simp only [block, declared] at h
    exact .counted declared (samples_of_sample h)
  | none =>
    by_cases few : ∃ n, g.Amounts intent v n ∧ n ≤ g.settings.maxEnumeration.toNat
    · obtain ⟨n, amounts, few⟩ := few
      obtain ⟨fragments, listed, _, block⟩ := block_listed small declared amounts few
      obtain ⟨rfl, rfl⟩ : (firsts fragments).map (·.toExample intent) = examples ∧ w = last := by
        simpa [block] using h
      exact .listed declared amounts few listed
    · have many : ∀ n, g.Amounts intent v n → g.settings.maxEnumeration.toNat < n :=
        fun n amounts => Nat.lt_of_not_le fun small => few ⟨n, amounts, small⟩
      simp only [block, declared, exhaust] at h
      split at h
      · cases h
      · next size counted =>
        have large : size.fits g.settings.maxEnumeration = false := by
          cases size with
          | unbounded => rfl
          | finite c =>
            obtain ⟨n, amounts, rfl⟩ := Store.countRules_eq_finite.mp counted
            have more := many n amounts
            exact Bool.eq_false_iff.mpr fun fits => by
              have := (fits_capped small).mp fits
              omega
        rw [large] at h
        exact .fallback declared many (samples_of_sample h)

theorem blocks_of_ok (small : g.settings.maxEnumeration < 0xFFFFFFFFFFFFFFFF) {vs : List Variation}
    (h : g.blocks intent vs w = (.ok examples, last)) :
    ∃ parts, g.Blocks intent vs w parts last ∧ examples = parts.flatten := by
  induction vs generalizing w examples with
  | nil =>
    cases h
    exact ⟨[], .nil, rfl⟩
  | cons v rest ih =>
    obtain ⟨first, next, others, own, after, rfl⟩ := blocks_cons_eq_ok.mp h
    obtain ⟨parts, blocks, rfl⟩ := ih after
    exact ⟨first :: parts, .cons (block_contributes small own) blocks, rfl⟩

/-! ## Whose examples they are -/

theorem intent_of_attempt {target : Option Target} {rules : List Rule} {e : Example} {next : Words}
    (h : g.attempt intent target rules w = (.ok e, next)) : e.intent = intent := by
  unfold attempt at h
  split at h
  · cases h
  · dsimp only at h
    obtain ⟨f, _, rfl⟩ := map_eq_ok.mp (congrArg Prod.fst h)
    rfl

theorem intent_of_sampled {target : Option Target} {rules : List Rule} {count budget dropped : Nat}
    {made kept : List Example} {start : Words}
    (run : Sampled (g.attempt intent target rules) count budget start made kept dropped w) :
    ∀ e ∈ made, e.intent = intent := by
  have longer : ∀ {made : List Example} {e : Example} {w next},
      (∀ e ∈ made, e.intent = intent) → g.attempt intent target rules w = (.ok e, next) →
        ∀ other ∈ made ++ [e], other.intent = intent := by
    intro made e w next before success other ho
    rcases List.mem_append.mp ho with ho | ho
    · exact before other ho
    · exact List.mem_singleton.mp ho ▸ intent_of_attempt success
  induction run with
  | nothing => exact fun _ he => nomatch he
  | fresh _ _ success _ ih => exact longer ih success
  | dropped _ _ success _ _ ih => exact longer ih success
  | repeated _ _ success _ _ ih => exact longer ih success

theorem Samples.intent_eq {count : UInt64} (h : g.Samples intent v count w examples last) :
    ∀ e ∈ examples, e.intent = intent := by
  obtain ⟨made, dropped, _, run⟩ := h
  exact fun e he => intent_of_sampled run e (run.sublist.subset he)

theorem Contributes.intent_eq (h : g.Contributes intent v w examples last) :
    ∀ e ∈ examples, e.intent = intent := by
  cases h with
  | counted _ sampled => exact sampled.intent_eq
  | listed =>
    intro e he
    obtain ⟨f, _, rfl⟩ := List.mem_map.mp he
    rfl
  | fallback _ _ sampled => exact sampled.intent_eq

theorem Blocks.intent_eq {vs : List Variation} {parts : List (List Example)}
    (h : g.Blocks intent vs w parts last) : ∀ e ∈ parts.flatten, e.intent = intent := by
  induction h with
  | nil => exact fun _ he => nomatch he
  | cons block _ ih =>
    intro e he
    rcases List.mem_append.mp (List.flatten_cons ▸ he) with he | he
    · exact block.intent_eq e he
    · exact ih e he

/-! ## A request -/

/-- **A request is made of blocks.** What a request gives is a block for each variation that it
means, in their order, each from the words that the one before it left: as many sampled examples as
the variation declares; or, without a declared count and with no more combinations than may be
enumerated, each listed text once; or the sampled examples of the fallback. They are all examples of
the intent. Enumerating does not fail and takes no word; what it keeps of the listing are different
texts, and all that there are. -/
theorem generate_blocks {variation : Option String}
    (small : g.settings.maxEnumeration < 0xFFFFFFFFFFFFFFFF)
    (h : g.generate intent variation w = (.ok examples, last)) :
    (∃ vs parts, g.selected intent variation = .ok vs ∧ g.Blocks intent vs w parts last ∧
        examples = parts.flatten) ∧
      (∀ e ∈ examples, e.intent = intent) ∧
      ∀ v n, v.count = none → g.Amounts intent v n → n ≤ g.settings.maxEnumeration.toNat →
        ∃ fragments, g.store.listRules [bodyOf intent v] .intent intent v.rules = .ok fragments ∧
          (∀ w, g.block intent v w = (.ok ((firsts fragments).map (·.toExample intent)), w)) ∧
          (firsts fragments).Sublist fragments ∧ ((firsts fragments).map (·.text)).Nodup ∧
          (∀ f ∈ fragments, ∃ kept ∈ firsts fragments, kept.text = f.text) ∧
          (firsts fragments).length ≤ g.settings.maxEnumeration.toNat := by
  have made : ∃ vs parts, g.selected intent variation = .ok vs ∧ g.Blocks intent vs w parts last ∧
      examples = parts.flatten := by
    unfold generate at h
    split at h
    · cases h
    · next vs selected =>
      obtain ⟨parts, blocks, flat⟩ := blocks_of_ok small h
      exact ⟨vs, parts, selected, blocks, flat⟩
  refine ⟨made, ?_, fun v n uncounted amounts few => ?_⟩
  · obtain ⟨vs, parts, _, blocks, rfl⟩ := made
    exact blocks.intent_eq
  · obtain ⟨fragments, listed, all, block⟩ := block_listed small uncounted amounts few
    have sublist := firsts_sublist fragments
    have fewer := sublist.length_le
    exact ⟨fragments, listed, block, sublist, nodup_firsts fragments,
      fun f hf => exists_firsts hf, by omega⟩

/-- One example is asked for, three combinations with two texts are enumerated, and four are too
many: one of them is sampled. -/
theorem generate_blocks_greeting : ∃ (g : Generator) (w last : Words) (examples : List Example)
    (plain : Variation) (n : Nat),
    g.settings.maxEnumeration < 0xFFFFFFFFFFFFFFFF ∧
      g.generate "hi" none w = (.ok examples, last) ∧
      examples.map (·.text) = ["hello", "oh there", "hey there", "oh oh"] ∧
      (∃ vs parts, g.selected "hi" none = .ok vs ∧ g.Blocks "hi" vs w parts last ∧
        examples = parts.flatten) ∧
      (∀ e ∈ examples, e.intent = "hi") ∧
      plain.count = none ∧ g.Amounts "hi" plain n ∧ n ≤ g.settings.maxEnumeration.toNat ∧
      ∃ fragments, g.store.listRules [bodyOf "hi" plain] .intent "hi" plain.rules = .ok fragments ∧
        (firsts fragments).length ≤ g.settings.maxEnumeration.toNat := by
  let a : Piece := .reference .alias "a" {}
  let plain : Variation := ⟨some "plain", none,
    [⟨[a, .word "there"], none⟩, ⟨[.word "oh", .word "there"], none⟩]⟩
  let hi : Definition := ⟨"hi", .intent, false,
    [⟨none, some 1, [⟨[.word "hello"], none⟩]⟩, plain, ⟨some "wide", none, [⟨[a, a], none⟩]⟩]⟩
  let s : Store := ⟨⟨[("a", ⟨"a", .alias, false,
    [⟨none, none, [⟨[.word "oh"], none⟩, ⟨[.word "hey"], none⟩]⟩]⟩)], by decide⟩, ∅,
    ⟨[("hi", hi)], by decide⟩⟩
  let g : Generator := ⟨s, { maxEnumeration := 3, fallback := 1 }⟩
  let w : Words := ⟨fun _ => 0, 0⟩
  let examples : List Example := [⟨"hi", "hello", []⟩, ⟨"hi", "oh there", []⟩,
    ⟨"hi", "hey there", []⟩, ⟨"hi", "oh oh", []⟩]
  have small : g.settings.maxEnumeration < 0xFFFFFFFFFFFFFFFF := by decide
  have generated : g.generate "hi" none w = (.ok examples, ⟨fun _ => 0, 4⟩) := by cbv
  have counted : g.store.countRules [bodyOf "hi" plain] plain.rules = .ok (.finite 3) := by cbv
  obtain ⟨n, amounts, size⟩ := Store.countRules_eq_finite.mp counted
  have few : n ≤ g.settings.maxEnumeration.toNat :=
    (fits_capped small).mp (size ▸ (by decide : (Combinations.finite 3).fits 3 = true))
  obtain ⟨made, whose, listed⟩ := generate_blocks small generated
  obtain ⟨fragments, all, _, _, _, _, fewer⟩ := listed plain n rfl amounts few
  exact ⟨g, w, _, examples, plain, n, small, generated, by decide, made, whose, rfl,
    amounts, few, fragments, all, fewer⟩

end Phrasebook.Generator
