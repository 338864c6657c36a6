import Mathlib

/-!
# Base64

Bytes as digits of six bits (RFC 4648). The bytes are one stream of bits, the highest of each byte
first; encoding cuts the stream into groups of six and fills up the last one with zeros, decoding
cuts the bits of the digits into groups of eight and drops what is left over.

## Main definitions

* `bits`, `ofBits`, `groups`: Numbers as bits, and a stream cut into groups.
* `Alphabet`, `encode`, `encodePadded`, `decode`: The code.
-/

namespace Base64

/-! ## Bits -/

/-- The last `w` bits of a number, the highest first. -/
def bits : Nat → Nat → List Bool
  | 0, _ => []
  | w + 1, n => bits w (n / 2) ++ [n % 2 == 1]

/-- The number with these bits. -/
def ofBits (l : List Bool) : Nat := l.foldl (fun n b => 2 * n + b.toNat) 0

/-- The whole groups of `w` bits. -/
def groups (w : Nat) (l : List Bool) : List (List Bool) :=
  (List.range (l.length / w)).map fun i => (l.drop (w * i)).take w

/-! ## The code -/

/-- The two alphabets. -/
inductive Alphabet
  | standard
  | urlSafe
deriving DecidableEq, Repr

/-- The digits of an alphabet, in order. -/
def Alphabet.digits : Alphabet → List Char
  | .standard => "ABCDEFGHIJKLMNOPQRSTUVWXYZabcdefghijklmnopqrstuvwxyz0123456789+/".toList
  | .urlSafe => "ABCDEFGHIJKLMNOPQRSTUVWXYZabcdefghijklmnopqrstuvwxyz0123456789-_".toList

/-- The digit of a number below 64. -/
def Alphabet.digit (alphabet : Alphabet) (n : Nat) : Char := alphabet.digits.getD n 'A'

/-- The number of a digit. -/
def Alphabet.value (alphabet : Alphabet) (c : Char) : Nat := alphabet.digits.idxOf c

/-- The bits of bytes. -/
def byteBits (bytes : List UInt8) : List Bool := bytes.flatMap fun b => bits 8 b.toNat

/-- A stream with the last group of six filled up. -/
def filled (l : List Bool) : List Bool := l ++ List.replicate ((6 - l.length % 6) % 6) false

/-- Bytes in an alphabet, without padding. -/
def encode (alphabet : Alphabet) (bytes : List UInt8) : List Char :=
  (groups 6 (filled (byteBits bytes))).map fun g => alphabet.digit (ofBits g)

/-- Bytes in an alphabet, padded to whole groups of four characters. -/
def encodePadded (alphabet : Alphabet) (bytes : List UInt8) : List Char :=
  encode alphabet bytes ++ List.replicate ((3 - bytes.length % 3) % 3) '='

/-- The bits of digits. -/
def stream (alphabet : Alphabet) (t : List Char) : List Bool :=
  t.flatMap fun c => bits 6 (alphabet.value c)

/-- The bytes of digits without padding. A single digit behind whole groups is none. -/
def decode (alphabet : Alphabet) (t : List Char) : Option (List UInt8) :=
  if t.length % 4 ≠ 1 ∧ ∀ c ∈ t, c ∈ alphabet.digits then
    some ((groups 8 (stream alphabet t)).map fun g => UInt8.ofNat (ofBits g))
  else none

end Base64
