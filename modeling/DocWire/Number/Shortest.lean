import DocWire.Number.Binary

/-!
# The fewest digits that read back

The decimal of least length inside the interval of reals that round to a given binary value, and
of those of that length the nearest one. A decimal of `n` digits lies in the interval only if one
of the two neighbours of the value on the grid of `n` digits does, so only those are tried.

* `Decimal`         digits times a power of ten;
* `shortest`        the decimal of a positive binary value;
* `Decimal.text`    positional notation, without an exponent and without superfluous zeros.
-/

namespace DocWire.Number

/-- The number `digits * 10 ^ power`. -/
structure Decimal where
  digits : Nat
  power : Int
deriving DecidableEq

/-- Which of two equally near decimals is taken. -/
inductive Tie
  /-- the greater one -/
  | up
  /-- the one whose last digit is even -/
  | even
deriving DecidableEq

/-- The binary value `value * 2 ^ scale` and the interval of reals that round to it, in one unit. -/
structure Rounding where
  low : Nat
  value : Nat
  high : Nat
  scale : Int
  /-- whether the ends of the interval belong to it -/
  closed : Bool

/-- The interval of a significand and scale of a format: half a unit to either side, but only a
quarter of one below a power of two, where the values lie twice as dense. -/
def Rounding.ofSignificand (f : Format) (significand : Nat) (scale : Int) : Rounding where
  low := 4 * significand - (if significand = 2 ^ f.fraction then 1 else 2)
  value := 4 * significand
  high := 4 * significand + 2
  scale := scale - 2
  closed := significand % 2 == 0

namespace Rounding

/-- Factors that bring multiples of `10 ^ power` and of `2 ^ scale` to a common unit. -/
def units (r : Rounding) (power : Int) : Nat × Nat :=
  (10 ^ power.toNat * 2 ^ (-r.scale).toNat, 2 ^ r.scale.toNat * 10 ^ (-power).toNat)

/-- the neighbour of the value among the multiples of `10 ^ power`, if one is in the interval -/
def neighbour (r : Rounding) (tie : Tie) (power : Int) : Option Nat :=
  let (ten, two) := r.units power
  let below := r.value * two / ten
  let rest := r.value * two % ten
  let inside (c : Nat) : Bool :=
    if r.closed then decide (r.low * two ≤ c * ten ∧ c * ten ≤ r.high * two)
    else decide (r.low * two < c * ten ∧ c * ten < r.high * two)
  match inside below, inside (below + 1) with
  | true, true =>
    if 2 * rest < ten then some below
    else if ten < 2 * rest then some (below + 1)
    else match tie with
      | .up => some (below + 1)
      | .even => some (if below % 2 = 0 then below else below + 1)
  | true, false => some below
  | false, true => some (below + 1)
  | false, false => none

/-- The `k` with `10 ^ (k - 1) ≤ value < 10 ^ k`. -/
def magnitude (r : Rounding) : Int :=
  let guess : Int := ((Nat.log2 r.value : Int) + r.scale) * 30103 / 100000 + 1
  let atLeast (k : Int) : Bool :=
    let (ten, two) := r.units k
    decide (ten ≤ r.value * two)
  if atLeast guess then guess + 1
  else if atLeast (guess - 1) then guess
  else guess - 1

end Rounding

def Decimal.trim (d : Decimal) : Decimal :=
  if d.digits % 10 = 0 then ⟨d.digits / 10, d.power + 1⟩ else d

/-- The shortest decimal that reads back as `significand * 2 ^ scale`. Seventeen digits always
suffice. -/
def shortest (f : Format) (tie : Tie) (significand : Nat) (scale : Int) : Decimal :=
  let r := Rounding.ofSignificand f significand scale
  let k := r.magnitude
  let found := (List.range 17).findSome? fun n =>
    let power := k - (n + 1 : Nat)
    (r.neighbour tie power).map fun digits => Decimal.trim ⟨digits, power⟩
  found.getD ⟨significand * 2 ^ scale.toNat, 0⟩

def digitsOf (n : Nat) : List Char := Nat.toDigits 10 n

namespace Decimal

/-- Positional notation: a point only if there is a fraction, a digit before the point always. -/
def text (d : Decimal) : List Char :=
  let digits := digitsOf d.digits
  if 0 ≤ d.power then digits ++ List.replicate d.power.toNat '0'
  else
    let places := (-d.power).toNat
    if places < digits.length then
      digits.take (digits.length - places) ++ '.' :: digits.drop (digits.length - places)
    else '0' :: '.' :: (List.replicate (places - digits.length) '0' ++ digits)

theorem text_of_natural (n p : Nat) :
    text ⟨n, p⟩ = digitsOf n ++ List.replicate p '0' := by
  simp [text]

end Decimal

/-- The text of a bit pattern: the fewest digits in positional notation, without a point for
integral values, and words for the values that have no digits. -/
def Format.text (f : Format) (bits : Nat) : String :=
  let sign (negative : Bool) (cs : List Char) : String :=
    String.ofList (if negative then '-' :: cs else cs)
  match f.unpack bits with
  | .notANumber => "NaN"
  | .infinite negative => sign negative ['i', 'n', 'f']
  | .finite negative 0 _ => sign negative ['0']
  | .finite negative m q => sign negative (shortest f .up m q).text

end DocWire.Number
