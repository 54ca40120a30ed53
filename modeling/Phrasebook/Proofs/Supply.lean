import Phrasebook.Pass

/-!
# Words that make a choice

Every choice can be forced: there are words with which it comes out as wanted, whatever words follow
them. Words for one choice after the other are put together by appending.

* `Words.Supplies`: the words that are still to be taken begin with these;
* `exists_supplies`: any words can stand at the start of a sequence;
* `chance_supplied`, `choose_supplied`: words for a decision that is possible, and for each value.
-/

namespace Phrasebook.Words

def skip (n : Nat) (w : Words) : Words := { w with taken := w.taken + n }

def Supplies (w : Words) : List UInt32 → Prop
  | [] => True
  | a :: rest => w.next.1 = a ∧ Supplies w.next.2 rest

theorem skip_zero (w : Words) : w.skip 0 = w := rfl

theorem skip_skip (a b : Nat) (w : Words) : (w.skip a).skip b = w.skip (a + b) := by
  simp only [skip, Nat.add_assoc]

theorem skip_succ (n : Nat) (w : Words) : w.next.2.skip n = w.skip (n + 1) := by
  simp only [skip, next, Nat.add_assoc, Nat.add_comm 1]

theorem supplies_append (w : Words) (first others : List UInt32) :
    w.Supplies (first ++ others) ↔ w.Supplies first ∧ (w.skip first.length).Supplies others := by
  induction first generalizing w with
  | nil => simp [Supplies, skip_zero]
  | cons a rest ih => simp only [List.cons_append, Supplies, ih, skip_succ, List.length_cons,
      and_assoc]

theorem exists_supplies (words : List UInt32) : ∃ word, Supplies ⟨word, 0⟩ words := by
  have further : ∀ words before : List UInt32,
      Supplies ⟨fun i => (before ++ words).getD i 0, before.length⟩ words := by
    intro words
    induction words with
    | nil => intro before; trivial
    | cons a rest ih =>
      intro before
      constructor
      · simp [next]
      · simpa [next] using ih (before ++ [a])
  exact ⟨_, further words []⟩

/-! ## An index -/

/-- The smallest word whose share of `n` is the index. -/
def lowest (i n : Nat) : Nat := (i * span + (n - 1)) / n

theorem lowest_bounds {i n : Nat} (hi : i < n) :
    i * span ≤ lowest i n * n ∧ lowest i n * n ≤ i * span + (n - 1) := by
  have division := Nat.div_add_mod (i * span + (n - 1)) n
  have rest := Nat.mod_lt (i * span + (n - 1)) (Nat.zero_lt_of_lt hi)
  rw [Nat.mul_comm] at division
  simp only [lowest]
  omega

theorem lowest_lt {i n : Nat} (hi : i < n) (small : n < span) : lowest i n < span := by
  apply Nat.div_lt_of_lt_mul
  have next : (i + 1) * span ≤ n * span := Nat.mul_le_mul_right span hi
  rw [Nat.add_mul] at next
  omega

theorem below_of_le {n : Nat} {w : Words} (le : w.next.1.toNat * n % span ≤ span - n) :
    w.below n = (w.next.1.toNat * n / span, w.next.2) := by
  unfold below
  exact if_neg (Nat.not_lt.mpr le)

theorem below_of_zero {n : Nat} {w : Words} (lt : span - n < w.next.1.toNat * n % span)
    (zero : w.next.2.next.1 = 0) :
    w.below n = (w.next.1.toNat * n / span, w.next.2.next.2) := by
  have stays := Nat.mod_lt (w.next.1.toNat * n) (show 0 < span by decide)
  have nothing : (0 : UInt32).toNat * n / span = 0 := by
    rw [UInt32.toNat_zero, Nat.zero_mul, Nat.zero_div]
  unfold below
  dsimp only
  rw [if_pos lt, zero, nothing, if_neg (by omega)]

theorem below_supplied {i n : Nat} (hi : i < n) (small : n < span) :
    ∃ words, ∀ w : Words, w.Supplies words → w.below n = (i, w.skip words.length) := by
  obtain ⟨least, most⟩ := lowest_bounds hi
  have word : (UInt32.ofNat (lowest i n)).toNat = lowest i n := by
    rw [UInt32.toNat_ofNat']
    exact Nat.mod_eq_of_lt (lowest_lt hi small)
  have index : lowest i n * n / span = i := by
    apply Nat.div_eq_of_lt_le
    · exact least
    · rw [Nat.add_mul, Nat.one_mul]
      omega
  by_cases carries : span - n < lowest i n * n % span
  · refine ⟨[.ofNat (lowest i n), 0], fun w supplied => ?_⟩
    obtain ⟨first, second, _⟩ := supplied
    rw [below_of_zero (by rwa [first, word]) second, first, word, index]
    rfl
  · refine ⟨[.ofNat (lowest i n)], fun w supplied => ?_⟩
    obtain ⟨first, _⟩ := supplied
    rw [below_of_le (by rw [first, word]; omega), first, word, index]
    rfl

theorem choose_supplied {α : Type} {values : List α} (small : values.length < span) {v : α}
    (hv : v ∈ values) :
    ∃ words, ∀ w : Words, w.Supplies words → w.choose values = (some v, w.skip words.length) := by
  obtain ⟨i, hi, rfl⟩ := List.mem_iff_getElem.mp hv
  obtain ⟨words, forced⟩ := below_supplied hi small
  refine ⟨words, fun w supplied => ?_⟩
  have nonempty : values.isEmpty = false := by
    simpa using List.ne_nil_of_mem hv
  simp [choose, nonempty, forced w supplied]

/-! ## A decision -/

theorem hits_pos : ∀ percent < 100, percent ≠ 0 → 0 < hits percent := by
  decide

/-- A decision can always fall for the piece, but at zero percent, where it never does. -/
theorem chance_supplied (percent : UInt8) :
    ∃ words, ∀ w : Words, w.Supplies words →
      w.chance percent = (percent != 0, w.skip words.length) := by
  by_cases certain : percent ≥ 100
  · refine ⟨[], fun w _ => ?_⟩
    have some : percent ≠ 0 := by
      rintro rfl
      exact absurd certain (by decide)
    simp [chance, certain, some, skip_zero]
  · refine ⟨[0, 0], fun w supplied => ?_⟩
    obtain ⟨first, second, _⟩ := supplied
    have drawn : w.next64 = (0, w.skip 2) := by
      simp [next64, first, second]
      rfl
    simp only [chance, if_neg certain, drawn]
    by_cases zero : percent = 0
    · simp [zero, hits]
    · have positive := hits_pos percent.toNat
        (UInt8.lt_iff_toNat_lt.mp (UInt8.not_le.mp certain))
        (fun h => zero (UInt8.toNat_inj.mp h))
      have differs : (percent != 0) = true := by simpa using zero
      rw [differs]
      exact Prod.ext (decide_eq_true positive) rfl

theorem asWritten_supplied :
    ∃ words, ∀ w : Words, w.Supplies words →
      Casing.draw w = (.asWritten, w.skip words.length) := by
  have first : .asWritten ∈ Casing.all := List.mem_cons_self
  obtain ⟨words, forced⟩ := choose_supplied (by decide) first
  refine ⟨words, fun w supplied => ?_⟩
  simp only [Casing.draw, forced w supplied, Option.getD_some]

end Phrasebook.Words
