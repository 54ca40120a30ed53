/-!
# Numerals

Whole numbers are written with ASCII digits. A count may have a plus sign in front, and fits in 64
bits.
-/
namespace Phrasebook.Text

def digits? (s : List Char) : Option Nat :=
  if s.isEmpty || !s.all Char.isDigit then none
  else some (s.foldl (fun n c => 10 * n + (c.toNat - '0'.toNat)) 0)

def word64? (s : List Char) : Option UInt64 := do
  let n ← digits? (match s with | '+' :: rest => rest | _ => s)
  if n ≤ 0xFFFFFFFFFFFFFFFF then some (.ofNat n) else none

end Phrasebook.Text
