/-!
# Combinations

How many texts a rule can have. The number is finite and held in 64 bits, where it stays at the
largest value once it gets there, or it is unbounded.
-/
namespace Phrasebook

/-- A natural number, or the largest one of 64 bits in place of a larger one. -/
def capped (n : Nat) : UInt64 := .ofNat (min n 0xFFFFFFFFFFFFFFFF)

theorem toNat_capped (n : Nat) : (capped n).toNat = min n 0xFFFFFFFFFFFFFFFF := by
  simp only [capped, UInt64.toNat_ofNat']
  omega

inductive Combinations where
  | finite (n : UInt64)
  | unbounded
deriving DecidableEq, Repr

namespace Combinations

def plus : Combinations → Combinations → Combinations
  | finite a, finite b => finite (capped (a.toNat + b.toNat))
  | _, _ => unbounded

def times : Combinations → Combinations → Combinations
  | finite a, finite b => finite (capped (a.toNat * b.toNat))
  | _, _ => unbounded

def fits (limit : UInt64) : Combinations → Bool
  | finite n => n ≤ limit
  | unbounded => false

end Combinations
end Phrasebook
