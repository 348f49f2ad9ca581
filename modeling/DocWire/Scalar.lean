import DocWire.Number.Shortest
import DocWire.Text.Hex
import DocWire.Text.Quoted

/-!
# Scalars

The atomic values of expressions, arguments and notices. A double is its bit pattern, so that two
scalars are equal exactly if they are written alike on the wire.

* `Scalar`          the values;
* `Scalar.ofInt64`  a signed integer is unsigned when it can be;
* `Scalar.text`     their wording.
-/

namespace DocWire

/-- An atomic value. -/
inductive Scalar
  | null
  | bool (value : Bool)
  | sint (value : Int64)
  | uint (value : UInt64)
  /-- a 64-bit floating point number, by its bits -/
  | double (bits : UInt64)
  /-- a number that would lose precision as a double, as it was written -/
  | exact (text : String)
  | str (value : String)
  | bytes (value : List UInt8)
deriving DecidableEq, Inhabited

namespace Scalar

/-- The scalar of a signed integer: unsigned unless it is negative. -/
def ofInt64 (i : Int64) : Scalar :=
  if 0 ≤ i.toInt then uint (UInt64.ofNat i.toInt.toNat) else sint i

def text : Scalar → String
  | null => "NULL"
  | bool true => "TRUE"
  | bool false => "FALSE"
  | sint i => toString i.toInt
  | uint n => toString n.toNat
  | double bits => Number.binary64.text bits.toNat
  | exact text => text
  | str s => Text.quote s
  | bytes b => "0x" ++ String.ofList (Text.Hex.encode b)

theorem ofInt64_of_nonneg {i : Int64} (h : 0 ≤ i.toInt) :
    ofInt64 i = uint (UInt64.ofNat i.toInt.toNat) := if_pos h

theorem ofInt64_of_neg {i : Int64} (h : i.toInt < 0) : ofInt64 i = sint i :=
  if_neg (by omega)

end Scalar

end DocWire
