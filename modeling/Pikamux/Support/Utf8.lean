import Mathlib.Tactic.Common

/-!
# Support — Utf8

UTF-8 as `std::str` reads it.

* `front` — what stands at the front of a sequence of bytes: a character, an ill-formed part, or
  the beginning of a character that is not complete.
* `fromUtf8Lossy` — the characters, each ill-formed part replaced.
-/

namespace Support

/-- What stands at the front of a nonempty sequence of bytes. -/
inductive Front where
  /-- A character of this many bytes. -/
  | char (length : Nat)
  /-- An ill-formed part of this many bytes. -/
  | bad (length : Nat)
  /-- The bytes end within a character. -/
  | more
  deriving DecidableEq, Repr

/-- How many bytes follow a leading byte, and the range of the first of them. -/
def following (b : UInt8) : Option (Nat × UInt8 × UInt8) :=
  if b < 0x80 then some (0, 0x80, 0xbf)
  else if b < 0xc2 then none
  else if b < 0xe0 then some (1, 0x80, 0xbf)
  else if b = 0xe0 then some (2, 0xa0, 0xbf)
  else if b = 0xed then some (2, 0x80, 0x9f)
  else if b < 0xf0 then some (2, 0x80, 0xbf)
  else if b = 0xf0 then some (3, 0x90, 0xbf)
  else if b < 0xf4 then some (3, 0x80, 0xbf)
  else if b = 0xf4 then some (3, 0x80, 0x8f)
  else none

/-- Read so many continuation bytes, the first of them in a range, after `k` bytes. -/
def continuation : Nat → UInt8 → UInt8 → Nat → List UInt8 → Front
  | 0, _, _, k, _ => .char k
  | _ + 1, _, _, _, [] => .more
  | n + 1, low, high, k, b :: bytes =>
      if low ≤ b ∧ b ≤ high then continuation n 0x80 0xbf (k + 1) bytes else .bad k

def front : List UInt8 → Front
  | [] => .more
  | b :: bytes =>
      match following b with
      | none => .bad 1
      | some (n, low, high) => continuation n low high 1 bytes

/-- The character that these bytes encode. -/
def decodeChar : List UInt8 → Char
  | [a] => Char.ofNat a.toNat
  | [a, b] => Char.ofNat (a.toNat % 32 * 64 + b.toNat % 64)
  | [a, b, c] => Char.ofNat ((a.toNat % 16 * 64 + b.toNat % 64) * 64 + c.toNat % 64)
  | [a, b, c, d] =>
      Char.ofNat (((a.toNat % 8 * 64 + b.toNat % 64) * 64 + c.toNat % 64) * 64 + d.toNat % 64)
  | _ => '\uFFFD'

/-- The first `n` characters, each ill-formed part replaced. -/
def lossyChars : Nat → List UInt8 → List Char
  | 0, _ => []
  | _ + 1, [] => []
  | n + 1, bytes =>
      match front bytes with
      | .char k => decodeChar (bytes.take k) :: lossyChars n (bytes.drop k)
      | .bad k => '\uFFFD' :: lossyChars n (bytes.drop k)
      | .more => ['\uFFFD']

/-- `String::from_utf8_lossy` -/
def fromUtf8Lossy (bytes : List UInt8) : String := String.ofList (lossyChars bytes.length bytes)

end Support
