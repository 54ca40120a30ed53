import Mathlib.Data.String.Basic
import Phrasebook.Shell.CommandLine

/-!
# Cutting a command line

A command line is cut at the blanks outside of quotes. Which blanks these are depends on all of the
line before them, but a token that is cut off has closed its quotes, so that each token can be
described alone.

* `Shell.inQuotes`, `Shell.Joined`: whether a quote is open behind a text, and the texts that are
  not cut;
* `Shell.CutInto`, `Shell.tokens_eq_iff`: how a line is cut; its tokens are the one way to cut it;
* `Shell.keptBehind`: what is left of a line without the blanks that cut it;
* `Shell.tokens_keep_line`: the tokens are what is left, and cutting once more changes nothing.
-/

namespace Phrasebook

open Text

namespace Shell

/-! ## Quotes and cuts -/

/-- Whether the last of the quotes in a text is open behind it. -/
def inQuotes (text : List Char) : Bool := text.count '"' % 2 = 1

/-- Every blank stands in quotes. -/
def Joined (text : List Char) : Prop :=
  ∀ before c after, text = before ++ c :: after → isBlank c = true → inQuotes before = true

/-- How a text is cut: a token ends at the first blank outside of its quotes, or with the text. -/
inductive CutInto : List Char → List (List Char) → Prop
  | nil : CutInto [] []
  | blank {c rest ts} (blank : isBlank c = true) (later : CutInto rest ts) : CutInto (c :: rest) ts
  | last {t} (filled : t ≠ []) (joined : Joined t) : CutInto t [t]
  | token {t c rest ts} (filled : t ≠ []) (joined : Joined t) (closed : inQuotes t = false)
      (blank : isBlank c = true) (later : CutInto rest ts) : CutInto (t ++ c :: rest) (t :: ts)

variable {token text rest before : List Char} {ts : List (List Char)} {c : Char}

theorem inQuotes_quote : inQuotes ('"' :: text) = !inQuotes text := by
  unfold inQuotes
  rw [List.count_cons_self]
  rcases Nat.mod_two_eq_zero_or_one (text.count '"') with even | odd
  · simp [even, Nat.add_mod]
  · simp [odd, Nat.add_mod]

theorem inQuotes_cons (other : c ≠ '"') : inQuotes (c :: text) = inQuotes text := by
  unfold inQuotes
  rw [List.count_cons_of_ne other]

theorem inQuotes_append : inQuotes (text ++ rest) = (inQuotes text ^^ inQuotes rest) := by
  induction text with
  | nil => simp [inQuotes]
  | cons c text ih =>
    by_cases quote : c = '"'
    · simp [quote, inQuotes_quote, ih]
    · simp [inQuotes_cons quote, ih]

theorem inQuotes_reverse : inQuotes text.reverse = inQuotes text := by
  unfold inQuotes
  rw [List.count_reverse]

theorem inQuotes_of_unquoted (unquoted : '"' ∉ text) : inQuotes text = false := by
  unfold inQuotes
  rw [List.count_eq_zero.mpr unquoted]
  rfl

theorem ne_quote_of_isBlank (blank : isBlank c = true) : c ≠ '"' := by
  rintro rfl
  cases blank

theorem joined_nil : Joined [] := by
  intro before c after same
  cases before <;> cases same

theorem joined_concat :
    Joined (text ++ [c]) ↔ Joined text ∧ (isBlank c = true → inQuotes text = true) := by
  constructor
  · intro joined
    refine ⟨fun before c' after same => ?_, joined text c [] rfl⟩
    exact joined before c' (after ++ [c]) (by rw [same, List.append_assoc]; rfl)
  · rintro ⟨joined, last⟩ before c' after same blank
    rcases List.eq_nil_or_concat after with rfl | ⟨after', d, rfl⟩
    · obtain ⟨rfl, tail⟩ := List.append_inj' same rfl
      cases tail
      exact last blank
    · have same : text ++ [c] = (before ++ c' :: after') ++ [d] := by simpa using same
      exact joined before c' after' (List.append_inj' same rfl).1 blank

/-- Without quotes, nothing but the blanks cuts a text. -/
theorem joined_iff (unquoted : '"' ∉ text) : Joined text ↔ ∀ c ∈ text, isBlank c = false := by
  constructor
  · intro joined c hc
    obtain ⟨before, after, rfl⟩ := List.append_of_mem hc
    cases blank : isBlank c with
    | false => rfl
    | true =>
      have outside := inQuotes_of_unquoted fun there => unquoted (List.mem_append_left _ there)
      rw [joined before c after rfl blank] at outside
      cases outside
  · rintro visible before c after rfl blank
    have := visible c (List.mem_append_right before List.mem_cons_self)
    rw [this] at blank
    cases blank

/-! ## Reading a token -/

/-- Inside a token, the next character belongs to it too, unless it is a blank outside of quotes. -/
theorem tokensFrom_keeps (inside : isBlank c = true → inQuotes token = true) :
    tokensFrom token (inQuotes token) (c :: rest) =
      tokensFrom (c :: token) (inQuotes (c :: token)) rest := by
  rw [tokensFrom]
  by_cases quote : c = '"'
  · rw [if_pos quote, quote, inQuotes_quote]
  · rw [if_neg quote, inQuotes_cons quote, if_neg]
    intro outside
    simp only [Bool.and_eq_true, Bool.not_eq_true'] at outside
    rw [inside outside.1] at outside
    cases outside.2

theorem tokensFrom_cuts (blank : isBlank c = true) (outside : inQuotes token = false) :
    tokensFrom token (inQuotes token) (c :: rest) =
      (if token.isEmpty then [] else [token.reverse]) ++ tokensFrom [] false rest := by
  rw [tokensFrom, if_neg (ne_quote_of_isBlank blank), outside, if_pos (by simp [blank])]
  cases token <;> rfl

/-- A text that is not cut is read into one token. -/
theorem tokensFrom_joined (joined : Joined (token.reverse ++ text)) :
    tokensFrom token (inQuotes token) (text ++ rest) =
      tokensFrom (text.reverse ++ token) (inQuotes (text.reverse ++ token)) rest := by
  induction text generalizing token with
  | nil => rfl
  | cons c text ih =>
    have inside : isBlank c = true → inQuotes token = true := fun blank =>
      inQuotes_reverse.symm.trans (joined token.reverse c text rfl blank)
    rw [List.cons_append, tokensFrom_keeps inside, ih (by simpa using joined)]
    simp

theorem tokensFrom_start (joined : Joined text) :
    tokensFrom [] false (text ++ rest) = tokensFrom text.reverse (inQuotes text.reverse) rest := by
  have read : tokensFrom [] (inQuotes []) (text ++ rest) = _ := tokensFrom_joined joined
  rwa [List.append_nil] at read

/-! ## Tokens -/

/-- The flag for quotes needs no invariant of its own: it is that of the token read so far. -/
theorem cutInto_tokensFrom (joined : Joined token.reverse) :
    CutInto (token.reverse ++ rest) (tokensFrom token (inQuotes token) rest) := by
  induction rest generalizing token with
  | nil =>
    cases token with
    | nil => exact .nil
    | cons c token => simpa [tokensFrom] using CutInto.last (by simp) joined
  | cons c rest ih =>
    by_cases inside : isBlank c = true → inQuotes token = true
    · have longer : Joined (c :: token).reverse := by
        rw [List.reverse_cons, joined_concat, inQuotes_reverse]
        exact ⟨joined, inside⟩
      rw [tokensFrom_keeps inside]
      simpa using ih longer
    · obtain ⟨blank, outside⟩ := Classical.not_imp.mp inside
      have closed : inQuotes token = false := by simpa using outside
      have later : CutInto rest (tokensFrom [] false rest) := @ih [] joined_nil
      rw [tokensFrom_cuts blank closed]
      cases token with
      | nil => exact .blank blank later
      | cons d token =>
        exact .token (by simp) joined (inQuotes_reverse.trans closed) blank later

theorem CutInto.tokensFrom_eq (cut : CutInto text ts) : tokensFrom [] false text = ts := by
  induction cut with
  | nil => rfl
  | @blank c rest _ blank _ ih =>
    have skipped : tokensFrom [] false (c :: rest) = _ := tokensFrom_cuts blank rfl
    simpa [ih] using skipped
  | @last t filled joined =>
    have read : tokensFrom [] false (t ++ []) = _ := tokensFrom_start joined
    simpa [tokensFrom, filled] using read
  | token filled joined closed blank _ ih =>
    rw [tokensFrom_start joined, tokensFrom_cuts blank (inQuotes_reverse.trans closed), ih]
    simp [filled]

theorem cutInto_tokens (line : String) :
    CutInto line.toList ((tokens line).map String.toList) := by
  have start : Joined ([] : List Char).reverse := joined_nil
  have cut : CutInto line.toList (tokensFrom [] false line.toList) := cutInto_tokensFrom start
  simpa [tokens, Function.comp_def] using cut

theorem tokens_eq_iff {line : String} {parts : List String} :
    tokens line = parts ↔ CutInto line.toList (parts.map String.toList) := by
  constructor
  · rintro rfl
    exact cutInto_tokens line
  · intro cut
    rw [tokens, cut.tokensFrom_eq]
    simp [Function.comp_def]

theorem CutInto.joined (cut : CutInto text ts) : ∀ t ∈ ts, t ≠ [] ∧ Joined t := by
  induction cut with
  | nil => simp
  | blank _ _ ih => exact ih
  | last filled joined => simp [filled, joined]
  | token filled joined _ _ _ ih => exact List.forall_mem_cons.mpr ⟨⟨filled, joined⟩, ih⟩

theorem joined_of_mem_tokens {line t : String} (mem : t ∈ tokens line) :
    t ≠ "" ∧ Joined t.toList := by
  have found : t.toList ∈ (tokens line).map String.toList := List.mem_map_of_mem mem
  simpa using (cutInto_tokens line).joined _ found

/-- A quote can be left open by the last token only. -/
theorem CutInto.closed (cut : CutInto text ts) : ∀ t ∈ ts.dropLast, inQuotes t = false := by
  induction cut with
  | nil | last => simp
  | blank _ _ ih => exact ih
  | @token t _ _ ts _ _ closed _ _ ih =>
    cases ts with
    | nil => simp
    | cons u us => exact List.forall_mem_cons.mpr ⟨closed, ih⟩

/-! ## What is left of a line -/

/-- A text behind another, without the blanks that have an even number of quotes before them in
the two. -/
def keptBehind (before : List Char) : List Char → List Char
  | [] => []
  | c :: rest =>
    if isBlank c && !inQuotes before then keptBehind (before ++ [c]) rest
    else c :: keptBehind (before ++ [c]) rest

theorem keptBehind_congr {other : List Char} (same : inQuotes before = inQuotes other) :
    keptBehind before text = keptBehind other text := by
  induction text generalizing before other with
  | nil => rfl
  | cons c text ih =>
    have further : inQuotes (before ++ [c]) = inQuotes (other ++ [c]) := by
      rw [inQuotes_append, inQuotes_append, same]
    simp only [keptBehind, same, ih further]

theorem keptBehind_cuts (blank : isBlank c = true) (outside : inQuotes before = false) :
    keptBehind before (c :: rest) = keptBehind [] rest := by
  have still : inQuotes (before ++ [c]) = inQuotes [] := by
    rw [inQuotes_append, outside, inQuotes_cons (ne_quote_of_isBlank blank)]
    rfl
  simp [keptBehind, blank, outside, keptBehind_congr still]

theorem keptBehind_joined (joined : Joined (before ++ text)) :
    keptBehind before (text ++ rest) = text ++ keptBehind (before ++ text) rest := by
  induction text generalizing before with
  | nil => simp
  | cons c text ih =>
    have inside : isBlank c = true → inQuotes before = true := joined before c text rfl
    have kept : (isBlank c && !inQuotes before) = false := by simpa using inside
    have further : Joined ((before ++ [c]) ++ text) := by simpa using joined
    simp [keptBehind, kept, ih further]

theorem keptBehind_start (joined : Joined text) :
    keptBehind [] (text ++ rest) = text ++ keptBehind text rest := by
  have kept : keptBehind [] (text ++ rest) = _ := keptBehind_joined joined
  rwa [List.nil_append] at kept

theorem CutInto.flatten_eq (cut : CutInto text ts) : ts.flatten = keptBehind [] text := by
  induction cut with
  | nil => rfl
  | blank blank _ ih => rw [keptBehind_cuts blank rfl, ih]
  | @last t _ joined =>
    have kept : keptBehind [] (t ++ []) = _ := keptBehind_start joined
    simpa [keptBehind] using kept.symm
  | token _ joined closed blank _ ih =>
    rw [List.flatten_cons, ih, keptBehind_start joined, keptBehind_cuts blank closed]

/-- Between two tokens, one space does for all blanks. -/
theorem CutInto.respaced (cut : CutInto text ts) : CutInto ([' '].intercalate ts) ts := by
  induction cut with
  | nil => exact .nil
  | blank _ _ ih => exact ih
  | last filled joined => simpa using CutInto.last filled joined
  | @token t _ _ ts filled joined closed _ _ ih =>
    cases ts with
    | nil => simpa using CutInto.last filled joined
    | cons u us => simpa using CutInto.token filled joined closed (c := ' ') rfl ih

/-- **The tokens of a line lose nothing but what cuts them.** None of them is empty, and one behind
the other they are the line without its blanks outside of quotes. Every blank in a token is in
quotes that are opened in it, a quote can be left open by the last token only, and with a space
between any two of them, the tokens are those of the line once more. There is no other way to cut
the line, such as one that ends a token where no blank is. -/
theorem tokens_keep_line (line : String) :
    (∀ t ∈ tokens line, t ≠ "") ∧
    String.join (tokens line) = .ofList (keptBehind [] line.toList) ∧
    (∀ t ∈ tokens line, Joined t.toList) ∧
    (∀ t ∈ (tokens line).dropLast, inQuotes t.toList = false) ∧
    tokens (" ".intercalate (tokens line)) = tokens line ∧
    ∀ parts, tokens line = parts ↔ CutInto line.toList (parts.map String.toList) := by
  have cut := cutInto_tokens line
  refine ⟨fun t mem => (joined_of_mem_tokens mem).1, ?_,
    fun t mem => (joined_of_mem_tokens mem).2, ?_, ?_, fun _ => tokens_eq_iff⟩
  · rw [String.join_eq, cut.flatten_eq]
  · intro t mem
    apply cut.closed
    rw [← List.map_dropLast]
    exact List.mem_map_of_mem mem
  · rw [tokens_eq_iff, String.toList_intercalate]
    exact cut.respaced

/-- The blanks behind a quote that is left open stay. -/
example : tokens "say  \"a b\"c  \" d " = ["say", "\"a b\"c", "\" d "] := by cbv

end Shell

end Phrasebook
