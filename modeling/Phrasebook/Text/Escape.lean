import Phrasebook.Text.Blank

/-!
# Comments and escapes

A backslash makes the character after it literal, and an unescaped semicolon starts a comment that
runs to the end of the line. A line is prepared for reading by cutting its comment and turning the
escaped semicolons that are left into plain ones; every other escape stays for later readers, which
need it to tell a literal bracket from a structural one.
-/
namespace Phrasebook.Text

/-- The text before the first unescaped semicolon, if there is one. -/
def beforeComment? : List Char → Option (List Char)
  | [] => none
  | '\\' :: c :: rest => (beforeComment? rest).map fun kept => '\\' :: c :: kept
  | c :: rest => if c = ';' then some [] else (beforeComment? rest).map (c :: ·)

/-- The blanks before a comment go with it; a line without one stays as it is. -/
def withoutComment (line : List Char) : List Char :=
  match beforeComment? line with
  | some kept => trimEnd kept
  | none => line

def plainSemicolons : List Char → List Char
  | [] => []
  | '\\' :: c :: rest =>
    if c = ';' then ';' :: plainSemicolons rest else '\\' :: c :: plainSemicolons rest
  | c :: rest => c :: plainSemicolons rest

/-- A template line as the rule and declaration readers take it. -/
def prepare (line : List Char) : List Char := plainSemicolons (withoutComment line)

/-- Every escaped character as itself; a backslash at the very end stands for itself. -/
def unescape : List Char → List Char
  | [] => []
  | '\\' :: c :: rest => c :: unescape rest
  | c :: rest => c :: unescape rest

theorem unescape_length (s : List Char) : (unescape s).length ≤ s.length := by
  fun_induction unescape s <;> simp_all; omega

def escape (special : List Char) (s : List Char) : List Char :=
  s.flatMap fun c => if special.contains c then ['\\', c] else [c]

/-- What stands before the first unescaped `mark`, and what follows it. -/
def splitAtMark? (mark : Char) : List Char → Option (List Char × List Char)
  | [] => none
  | '\\' :: c :: rest =>
    (splitAtMark? mark rest).map fun parts => ('\\' :: c :: parts.1, parts.2)
  | c :: rest =>
    if c = mark then some ([], rest)
    else (splitAtMark? mark rest).map fun parts => (c :: parts.1, parts.2)

end Phrasebook.Text
