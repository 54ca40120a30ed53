/-!
# Random words

Randomness is an endless sequence of 32-bit words, taken one after the other. Choices are made from
them by fixed rules, so that a run is determined by its words.
-/
namespace Phrasebook

structure Words where
  word : Nat → UInt32
  taken : Nat := 0

namespace Words

/-- The given words over and over again. -/
def cycle (words : Array UInt32) : Words where
  word i := words.getD (i % words.size) 0

def next (w : Words) : UInt32 × Words := (w.word w.taken, { w with taken := w.taken + 1 })

/-- Two words, the low half first. -/
def next64 (w : Words) : UInt64 × Words :=
  let (low, w) := w.next
  let (high, w) := w.next
  (high.toUInt64 <<< 32 ||| low.toUInt64, w)

/-- How many words there are. -/
def span : Nat := 0x100000000

/-- An index below `n`: the high half of a word times `n`. Where the low half is so large that the
digits below it could carry into the index, a second word supplies them. -/
def below (n : Nat) (w : Words) : Nat × Words :=
  let (a, w) := w.next
  let product := a.toNat * n
  let index := product / span
  let low := product % span
  if low > span - n then
    let (b, w) := w.next
    (if low + b.toNat * n / span ≥ span then index + 1 else index, w)
  else (index, w)

/-- The index is the whole part of `n` times the fraction that two words spell, or of one word. -/
private theorem carry_lt {n a b : Nat} (hn : 0 < n) (ha : a < span) (hb : b < span)
    (carry : span ≤ a * n % span + b * n / span) : a * n / span + 1 < n := by
  have lt : (a * span + b) * n < span * span * n :=
    Nat.mul_lt_mul_of_pos_right (by simp only [span] at *; omega) hn
  have split : (a * span + b) * n = a * n * span + b * n := by
    rw [Nat.add_mul, Nat.mul_right_comm]
  simp only [span] at *
  omega

theorem below_lt {n : Nat} (hn : 0 < n) (w : Words) : (w.below n).1 < n := by
  have single (a : UInt32) : a.toNat * n / span < n := by
    have lt : a.toNat * n < span * n := Nat.mul_lt_mul_of_pos_right a.toNat_lt hn
    simp only [span] at *
    omega
  simp only [below]
  split
  · split
    · next carry => exact carry_lt hn (UInt32.toNat_lt _) (UInt32.toNat_lt _) carry
    · exact single _
  · exact single _

/-- One of the values; no word is taken where there is none to choose from. -/
def choose {α : Type} (values : List α) (w : Words) : Option α × Words :=
  if values.isEmpty then (none, w)
  else
    let (i, w) := w.below values.length
    (values[i]?, w)

/-- A quotient as the nearest whole number, a half going to the even one. -/
def roundHalfEven (num den : Nat) : Nat :=
  let q := num / den
  let r := num % den
  if 2 * r > den || (2 * r == den && q % 2 == 1) then q + 1 else q

/-- How many of the 2 ^ 64 pairs of words count as a hit at `percent`, for a percentage below 100.
The probability is held with 53 significant binary digits. -/
def hits (percent : Nat) : Nat :=
  if percent = 0 then 0
  else
    let places := 59 - (percent * 128 / 100).log2
    roundHalfEven (percent <<< places) 100 <<< (64 - places)

/-- True with the given chance. A percentage of 100 or more needs no words. -/
def chance (percent : UInt8) (w : Words) : Bool × Words :=
  if percent ≥ 100 then (true, w)
  else
    let (v, w) := w.next64
    (v.toNat < hits percent.toNat, w)

end Words
end Phrasebook
