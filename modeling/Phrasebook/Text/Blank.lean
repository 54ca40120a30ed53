/-!
# Blank characters

The characters that separate words, indent rules and can be trimmed: those of the Unicode property
White_Space.
-/
namespace Phrasebook.Text

def isBlank (c : Char) : Bool :=
  (0x09 ≤ c.toNat && c.toNat ≤ 0x0D) || (0x2000 ≤ c.toNat && c.toNat ≤ 0x200A) ||
    [0x20, 0x85, 0xA0, 0x1680, 0x2028, 0x2029, 0x202F, 0x205F, 0x3000].contains c.toNat

def allBlank (s : List Char) : Bool := s.all isBlank

def trimStart (s : List Char) : List Char := s.dropWhile isBlank

def trimEnd (s : List Char) : List Char := (s.reverse.dropWhile isBlank).reverse

def trim (s : List Char) : List Char := trimEnd (trimStart s)

theorem trim_length (s : List Char) : (trim s).length ≤ s.length := by
  have h (s : List Char) : (s.dropWhile isBlank).length ≤ s.length :=
    (List.dropWhile_suffix isBlank).length_le
  have := h (trimStart s).reverse
  have := h s
  simp only [trim, trimEnd, trimStart, List.length_reverse] at *
  omega

end Phrasebook.Text
