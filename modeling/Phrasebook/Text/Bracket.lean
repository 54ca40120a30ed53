/-!
# Brackets

How deep a character stands in square brackets, and the bracket that closes an open one. Escaped
brackets do not count.
-/
namespace Phrasebook.Text

/-- A closing bracket that closes nothing leaves the depth at zero. -/
def depthAfter (c : Char) (depth : Nat) : Nat :=
  if c = '[' then depth + 1 else if c = ']' then depth - 1 else depth

/-- The text through the bracket that closes `depth` levels and the one around them, and the text
after it. -/
def throughClosing? (depth : Nat) : List Char → Option (List Char × List Char)
  | [] => none
  | '\\' :: c :: rest =>
    (throughClosing? depth rest).map fun parts => ('\\' :: c :: parts.1, parts.2)
  | c :: rest =>
    if c = ']' && depth = 0 then some ([c], rest)
    else (throughClosing? (depthAfter c depth) rest).map fun parts => (c :: parts.1, parts.2)

theorem throughClosing?_length {depth : Nat} {s inner after : List Char}
    (h : throughClosing? depth s = some (inner, after)) :
    inner.length + after.length = s.length := by
  fun_induction throughClosing? depth s generalizing inner after with
  | case1 => simp at h
  | case2 depth c rest ih =>
    obtain ⟨⟨a, b⟩, hp, heq⟩ := Option.map_eq_some_iff.1 h
    have := ih hp
    simp only [Prod.mk.injEq] at heq
    simp only [← heq.1, ← heq.2, List.length_cons]
    omega
  | case3 depth c rest =>
    simp only [Option.some.injEq, Prod.mk.injEq] at h
    simp only [← h.1, ← h.2, List.length_cons, List.length_nil]
    omega
  | case4 depth c rest _ _ ih =>
    obtain ⟨⟨a, b⟩, hp, heq⟩ := Option.map_eq_some_iff.1 h
    have := ih hp
    simp only [Prod.mk.injEq] at heq
    simp only [← heq.1, ← heq.2, List.length_cons]
    omega

/-- What stands before the first unescaped `mark` outside of brackets, and what follows it. -/
def splitOutside? (mark : Char) (depth : Nat) : List Char → Option (List Char × List Char)
  | [] => none
  | '\\' :: c :: rest =>
    (splitOutside? mark depth rest).map fun parts => ('\\' :: c :: parts.1, parts.2)
  | c :: rest =>
    if c = mark && depth = 0 then some ([], rest)
    else (splitOutside? mark (depthAfter c depth) rest).map fun parts => (c :: parts.1, parts.2)

end Phrasebook.Text
