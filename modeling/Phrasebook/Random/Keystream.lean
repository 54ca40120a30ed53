import Phrasebook.Random.Words

/-!
# Seeded words

The words that a seed stands for: the keystream of ChaCha with twelve rounds, under a key that a
permuted congruential generator derives from the seed, with a 64-bit block counter and no nonce.
-/
namespace Phrasebook.Keystream

def rotateLeft (x k : UInt32) : UInt32 := x <<< k ||| x >>> (32 - k)

/-- The state of the cipher, four rows of four words. -/
structure State where
  (a0 a1 a2 a3 : UInt32)
  (b0 b1 b2 b3 : UInt32)
  (c0 c1 c2 c3 : UInt32)
  (d0 d1 d2 d3 : UInt32)
deriving DecidableEq, Repr

@[inline]
def quarterRound (a b c d : UInt32) : UInt32 × UInt32 × UInt32 × UInt32 :=
  let a := a + b
  let d := rotateLeft (d ^^^ a) 16
  let c := c + d
  let b := rotateLeft (b ^^^ c) 12
  let a := a + b
  let d := rotateLeft (d ^^^ a) 8
  let c := c + d
  let b := rotateLeft (b ^^^ c) 7
  (a, b, c, d)

namespace State

/-- The columns, then the diagonals. -/
def doubleRound (s : State) : State :=
  let (a0, b0, c0, d0) := quarterRound s.a0 s.b0 s.c0 s.d0
  let (a1, b1, c1, d1) := quarterRound s.a1 s.b1 s.c1 s.d1
  let (a2, b2, c2, d2) := quarterRound s.a2 s.b2 s.c2 s.d2
  let (a3, b3, c3, d3) := quarterRound s.a3 s.b3 s.c3 s.d3
  let (a0, b1, c2, d3) := quarterRound a0 b1 c2 d3
  let (a1, b2, c3, d0) := quarterRound a1 b2 c3 d0
  let (a2, b3, c0, d1) := quarterRound a2 b3 c0 d1
  let (a3, b0, c1, d2) := quarterRound a3 b0 c1 d2
  ⟨a0, a1, a2, a3, b0, b1, b2, b3, c0, c1, c2, c3, d0, d1, d2, d3⟩

def rounds (s : State) : Nat → State
  | 0 => s
  | n + 1 => s.doubleRound.rounds n

def add (s t : State) : State :=
  ⟨s.a0 + t.a0, s.a1 + t.a1, s.a2 + t.a2, s.a3 + t.a3,
   s.b0 + t.b0, s.b1 + t.b1, s.b2 + t.b2, s.b3 + t.b3,
   s.c0 + t.c0, s.c1 + t.c1, s.c2 + t.c2, s.c3 + t.c3,
   s.d0 + t.d0, s.d1 + t.d1, s.d2 + t.d2, s.d3 + t.d3⟩

def word (s : State) : Nat → UInt32
  | 0 => s.a0
  | 1 => s.a1
  | 2 => s.a2
  | 3 => s.a3
  | 4 => s.b0
  | 5 => s.b1
  | 6 => s.b2
  | 7 => s.b3
  | 8 => s.c0
  | 9 => s.c1
  | 10 => s.c2
  | 11 => s.c3
  | 12 => s.d0
  | 13 => s.d1
  | 14 => s.d2
  | _ => s.d3

end State

structure Key where
  (k0 k1 k2 k3 k4 k5 k6 k7 : UInt32)
deriving DecidableEq, Repr

/-- One step of the generator, and the word it gives. -/
def keyStep (s : UInt64) : UInt64 × UInt32 :=
  let s := s * 6364136223846793005 + 11634580027462260723
  let x := (((s >>> 18) ^^^ s) >>> 27).toUInt32
  let turn := (s >>> 59).toUInt32
  (s, x >>> turn ||| x <<< ((32 - turn) % 32))

def Key.ofSeed (seed : UInt64) : Key :=
  let (s, k0) := keyStep seed
  let (s, k1) := keyStep s
  let (s, k2) := keyStep s
  let (s, k3) := keyStep s
  let (s, k4) := keyStep s
  let (s, k5) := keyStep s
  let (s, k6) := keyStep s
  let (_, k7) := keyStep s
  ⟨k0, k1, k2, k3, k4, k5, k6, k7⟩

def Key.state (k : Key) (counter : UInt64) : State :=
  ⟨0x61707865, 0x3320646e, 0x79622d32, 0x6b206574, k.k0, k.k1, k.k2, k.k3,
   k.k4, k.k5, k.k6, k.k7, counter.toUInt32, (counter >>> 32).toUInt32, 0, 0⟩

def Key.block (k : Key) (counter : UInt64) : State :=
  ((k.state counter).rounds 6).add (k.state counter)

end Keystream

def Words.seeded (seed : UInt64) : Words :=
  let key := Keystream.Key.ofSeed seed
  { word := fun i => (key.block (.ofNat (i / 16))).word (i % 16) }

end Phrasebook
