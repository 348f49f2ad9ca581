/-!
# Hexadecimal

Bytes as pairs of hexadecimal digits, the high half first.

* `encode`, `encodeUpper`   with lower-case and upper-case digits;
* `decode?`                 either case is read back.
-/

namespace DocWire.Text.Hex

def lowerDigit (n : Nat) : Char :=
  if n < 10 then Char.ofNat ('0'.toNat + n) else Char.ofNat ('a'.toNat + (n - 10))

def upperDigit (n : Nat) : Char :=
  if n < 10 then Char.ofNat ('0'.toNat + n) else Char.ofNat ('A'.toNat + (n - 10))

def byteDigits (digit : Nat → Char) (b : UInt8) : List Char :=
  [digit (b.toNat / 16), digit (b.toNat % 16)]

/-- The lower-case spelling of a byte sequence. -/
def encode (bytes : List UInt8) : List Char := bytes.flatMap (byteDigits lowerDigit)

def encodeUpper (bytes : List UInt8) : List Char := bytes.flatMap (byteDigits upperDigit)

theorem encode_nil : encode [] = [] := rfl

theorem encode_append (a b : List UInt8) : encode (a ++ b) = encode a ++ encode b := by
  simp [encode, List.flatMap_append]

theorem encodeUpper_append (a b : List UInt8) :
    encodeUpper (a ++ b) = encodeUpper a ++ encodeUpper b := by
  simp [encodeUpper, List.flatMap_append]

/-- The value of a digit of either case. -/
def digitValue? (c : Char) : Option Nat :=
  if '0' ≤ c ∧ c ≤ '9' then some (c.toNat - '0'.toNat)
  else if 'a' ≤ c ∧ c ≤ 'f' then some (c.toNat - 'a'.toNat + 10)
  else if 'A' ≤ c ∧ c ≤ 'F' then some (c.toNat - 'A'.toNat + 10)
  else none

/-- Reads back a spelling of either case; an odd digit or any other character is refused. -/
def decode? : List Char → Option (List UInt8)
  | [] => some []
  | [_] => none
  | high :: low :: rest => do
    let h ← digitValue? high
    let l ← digitValue? low
    let bytes ← decode? rest
    pure (UInt8.ofNat (h * 16 + l) :: bytes)

end DocWire.Text.Hex
