/-!
# Numbers of varying length

A number is stored seven bits to a byte, low bits first; a set high bit says that another byte
follows. Numbers may be padded with zero bits, up to a longest form whose last byte is bounded so
that the number fits its width.
-/
namespace Phrasebook.Cache

/-- Reads from the front of some bytes, or finds that they are not what is expected. -/
abbrev Reader := StateT (List UInt8) Option

def readByte : Reader UInt8
  | [] => none
  | b :: rest => some (b, rest)

namespace Varint

def encode (n : Nat) : List UInt8 :=
  if n < 128 then [.ofNat n] else .ofNat (n % 128 + 128) :: encode (n / 128)
termination_by n

/-- The longest form has `more + 1` bytes, the last of them at most `top`. -/
def decode (more : Nat) (top : UInt8) : Reader Nat
  | [] => none
  | b :: rest =>
    if b < 128 then if more = 0 && top < b then none else some (b.toNat, rest)
    else
      match more with
      | 0 => none
      | more + 1 =>
        (decode more top rest).map fun (high, rest) => (b.toNat - 128 + 128 * high, rest)

/-- A number of 64 bits. -/
def decode64 : Reader Nat := decode 9 0x01

/-- A number of 32 bits. -/
def decode32 : Reader Nat := decode 4 0x0F

end Varint
end Phrasebook.Cache
