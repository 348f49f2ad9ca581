import DocWire.Number.Natural

/-!
# Binary floating point as bits

A number in a binary interchange format is handled through its bit pattern. A pattern is a
`Nat` below `2 ^ f.width`; its value is read off exactly, and exact rationals are rounded to it.

* `Format.unpack`     the class and exact value of a pattern;
* `Format.pack`       the pattern of a sign and a significand times a power of two;
* `Format.nearest`    the pattern nearest to a quotient of naturals, a tie to the even one;
* `Format.ofDecimal`  the pattern nearest to digits times a power of ten.
-/

namespace DocWire.Number

/-- A binary interchange format, given by the widths of its two fields. -/
structure Format where
  /-- bits of the significand that are stored -/
  fraction : Nat
  /-- bits of the exponent field -/
  exponent : Nat
deriving DecidableEq

def binary64 : Format := ⟨52, 11⟩

def binary32 : Format := ⟨23, 8⟩

/-- What a bit pattern stands for. A finite value is `significand * 2 ^ scale`. -/
inductive Unpacked
  | notANumber
  | infinite (negative : Bool)
  | finite (negative : Bool) (significand : Nat) (scale : Int)
deriving DecidableEq

namespace Format

def width (f : Format) : Nat := f.fraction + f.exponent + 1

/-- the greatest exponent field, kept for infinities and not-a-numbers -/
def top (f : Format) : Nat := 2 ^ f.exponent - 1

/-- the scale of the smallest positive value -/
def minScale (f : Format) : Int := 2 - (2 ^ (f.exponent - 1) : Nat) - (f.fraction : Int)

def infinity (f : Format) : Nat := f.top * 2 ^ f.fraction

def signBit (f : Format) : Nat := 2 ^ (f.fraction + f.exponent)

def negative (f : Format) (bits : Nat) : Bool := decide (bits / f.signBit % 2 = 1)

def unpack (f : Format) (bits : Nat) : Unpacked :=
  let fraction := bits % 2 ^ f.fraction
  let field := bits / 2 ^ f.fraction % 2 ^ f.exponent
  let sign := f.negative bits
  if field = f.top then
    if fraction = 0 then .infinite sign else .notANumber
  else if field = 0 then .finite sign fraction f.minScale
  else .finite sign (2 ^ f.fraction + fraction) (f.minScale + (field - 1 : Nat))

/-- The pattern of a positive `significand * 2 ^ scale` whose significand has at most
`f.fraction + 1` bits, and all of them unless the scale is the least one. A significand that
rounding has carried to the next power of two spills into the exponent field, as it should. -/
def pack (f : Format) (significand : Nat) (scale : Int) : Nat :=
  let field := (scale - f.minScale).toNat
  let bits := field * 2 ^ f.fraction + significand
  if f.infinity ≤ bits then f.infinity else bits

/-- the quotient rounded to the nearest natural, a tie to the even one -/
def roundQuotient (num den : Nat) : Nat :=
  let q := num / den
  let r := num % den
  if 2 * r < den ∨ (2 * r = den ∧ q % 2 = 0) then q else q + 1

/-- The pattern of the format that is nearest to `num / den`, a tie to the even one. -/
def nearest (f : Format) (num den : Nat) : Nat :=
  if num = 0 ∨ den = 0 then 0
  else
    -- `2 ^ (e - 1) < num / den < 2 ^ (e + 1)`, so one of two scales gives a full significand
    let e : Int := (Nat.log2 num : Int) - Nat.log2 den
    let scaled (scale : Int) : Nat × Nat :=
      if 0 ≤ scale then (num, den * 2 ^ scale.toNat) else (num * 2 ^ (-scale).toNat, den)
    let high := max f.minScale (e - f.fraction)
    let (n, d) := scaled high
    let scale := if n < d * 2 ^ f.fraction then max f.minScale (high - 1) else high
    let (n, d) := scaled scale
    f.pack (roundQuotient n d) scale

/-- The pattern nearest to `digits * 10 ^ power`. Values far outside the range of the wider format
are settled without computing the power. -/
def ofDecimal (f : Format) (digits : Nat) (power : Int) : Nat :=
  let length := (Nat.toDigits 10 digits).length
  if digits = 0 then 0
  else if 400 < power + length then f.infinity
  else if power + length < -400 then 0
  else if 0 ≤ power then f.nearest (digits * 10 ^ power.toNat) 1
  else f.nearest digits (10 ^ (-power).toNat)

theorem ofDecimal_zero (f : Format) (power : Int) : f.ofDecimal 0 power = 0 := by
  simp [ofDecimal]

/-- The pattern nearest to `significand * 2 ^ scale / den`. -/
def nearestScaled (f : Format) (significand : Nat) (scale : Int) (den : Nat) : Nat :=
  f.nearest (significand * 2 ^ scale.toNat) (den * 2 ^ (-scale).toNat)

def times (f : Format) (a b : Nat) : Nat :=
  match f.unpack a, f.unpack b with
  | .finite _ m p, .finite _ n q => f.nearestScaled (m * n) (p + q) 1
  | _, _ => f.infinity

def dividedBy (f : Format) (a b : Nat) : Nat :=
  match f.unpack a, f.unpack b with
  | .finite _ m p, .finite _ n q => f.nearestScaled m (p - q) n
  | _, _ => f.infinity

def isFinite (f : Format) (bits : Nat) : Bool :=
  bits / 2 ^ f.fraction % 2 ^ f.exponent != f.top

/-- The pattern in `g` of the value of a pattern in `f`, where `g` has room for every value of `f`.
The stored bits of a not-a-number are kept in front, and it is made quiet. -/
def widen (f g : Format) (bits : Nat) : Nat :=
  let sign := if f.negative bits then g.signBit else 0
  match f.unpack bits with
  | .infinite _ => sign + g.infinity
  | .finite _ m q => sign + g.nearestScaled m q 1
  | .notANumber =>
    let fraction := bits % 2 ^ f.fraction * 2 ^ (g.fraction - f.fraction)
    let quiet := 2 ^ (g.fraction - 1)
    sign + g.infinity + (if fraction / quiet % 2 = 1 then fraction else fraction + quiet)

def negate (f : Format) (bits : Nat) : Nat :=
  if f.negative bits then bits - f.signBit else bits + f.signBit

end Format

end DocWire.Number
