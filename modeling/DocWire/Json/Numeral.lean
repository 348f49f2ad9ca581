import DocWire.Json.Basic
import DocWire.Text.Letters

/-!
# JSON numbers

The digits of a number are collected in 64 bits. Digits that do not fit are dropped and counted,
and the number is then a double: the digits rounded to a double, times or divided by the double
nearest to a power of ten. Each of these steps rounds, so the result is near the exact value but
not always nearest to it.

* `ofParts?`   digits times a power of ten;
* `number?`    the number at the start of a text.
-/

namespace DocWire.Json

/-- the greatest number of digits' worth that is kept -/
def maxDigits : Nat := 2 ^ 64 - 1

/-- the double nearest to a power of ten -/
def powerOfTen (n : Nat) : Nat := Number.binary64.nearest (10 ^ n) 1

/-- A double scaled by a power of ten, in steps of at most `10 ^ 308`. It is an error if the result
is too great; after three steps down it is zero. -/
def scale? : Nat → Nat → Int → Option Nat
  | 0, bits, _ => some bits
  | steps + 1, bits, power =>
    let format := Number.binary64
    if power.natAbs ≤ 308 then
      if 0 ≤ power then
        let scaled := format.times bits (powerOfTen power.natAbs)
        if format.isFinite scaled then some scaled else none
      else some (format.dividedBy bits (powerOfTen power.natAbs))
    else if bits = 0 then some bits
    else if 0 ≤ power then none
    else scale? steps (format.dividedBy bits (powerOfTen 308)) (power + 308)

/-- The double of collected digits and a power of ten. -/
def ofParts? (negative : Bool) (digits : Nat) (power : Int) : Option Json :=
  let format := Number.binary64
  (scale? 4 (format.nearest digits 1) power).map fun bits =>
    .double (UInt64.ofNat (if negative then format.negate bits else bits))

/-- Collects digits as long as they fit. Gives the collected number, how many digits went into it,
and the digits that did not fit. -/
def collect (digits : Nat) : List Char → Nat × Nat × List Char
  | [] => (digits, 0, [])
  | c :: rest =>
    let more := digits * 10 + Text.digitValue c
    if maxDigits < more then (digits, 0, c :: rest)
    else
      let (digits, count, dropped) := collect more rest
      (digits, count + 1, dropped)

/-- the exponent at the start of a text: its value and what follows it -/
def exponent? : List Char → Option (Int × List Char)
  | cs =>
    let (negative, cs) :=
      match cs with
      | '+' :: rest => (false, rest)
      | '-' :: rest => (true, rest)
      | cs => (false, cs)
    let digits := cs.takeWhile Text.isDigit
    if digits.isEmpty then none
    else
      let value : Int := Text.digitsValue digits
      some (if negative then -value else value, cs.drop digits.length)

/-- A double of collected digits, where an exponent may follow. -/
def withExponent? (negative : Bool) (digits : Nat) (power : Int) :
    List Char → Option (Json × List Char)
  | c :: cs =>
    if c = 'e' ∨ c = 'E' then do
      let (exponent, rest) ← exponent? cs
      let value ← ofParts? negative digits (power + exponent)
      pure (value, rest)
    else (ofParts? negative digits power).map fun value => (value, c :: cs)
  | [] => (ofParts? negative digits power).map fun value => (value, [])

/-- A double of collected digits, where a fraction or an exponent follows. -/
def withFraction? (negative : Bool) (digits : Nat) (power : Int) :
    List Char → Option (Json × List Char)
  | '.' :: cs =>
    let fraction := cs.takeWhile Text.isDigit
    let (digits, count, _) := collect digits fraction
    if fraction.isEmpty then none
    else withExponent? negative digits (power - count) (cs.drop fraction.length)
  | cs => withExponent? negative digits power cs

/-- the integer of collected digits: negative zero and what does not fit are doubles -/
def integer (negative : Bool) (digits : Nat) : Json :=
  if negative then
    if digits = 0 ∨ 2 ^ 63 < digits then
      let format := Number.binary64
      .double (UInt64.ofNat (format.negate (format.nearest digits 1)))
    else .sint (Int64.ofInt (-digits))
  else .uint (UInt64.ofNat digits)

def isFractional : List Char → Bool
  | c :: _ => c == '.' || c == 'e' || c == 'E'
  | [] => false

/-- The number at the start of a text, from behind its sign on. No digit follows a leading zero. -/
def unsigned? (negative : Bool) (cs : List Char) : Option (Json × List Char) :=
  let whole := cs.takeWhile Text.isDigit
  let rest := cs.drop whole.length
  if whole.isEmpty ∨ (whole.head? = some '0' ∧ 1 < whole.length) then none
  else
    let (digits, _, dropped) := collect 0 whole
    if dropped.isEmpty ∧ !isFractional rest then some (integer negative digits, rest)
    else withFraction? negative digits dropped.length rest

def number? : List Char → Option (Json × List Char)
  | '-' :: cs => unsigned? true cs
  | cs => unsigned? false cs

end DocWire.Json
