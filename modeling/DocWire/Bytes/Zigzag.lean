import DocWire.Number.Natural

/-!
# Zigzag numbering

The integers numbered `0, -1, 1, -2, 2, …`, so that numbers near zero of either sign have small
codes.

* `toCode`, `ofCode`                 the code of an integer and the integer of a code;
* `ofCode_toCode`, `toCode_ofCode`   each takes back the other;
* `encode`, `decode`                 the same on words of 64 bits.
-/

namespace DocWire.Bytes.Zigzag

def ofCode (n : Nat) : Int := if n % 2 = 0 then (n / 2 : Nat) else -(n / 2 : Nat) - 1

def toCode (i : Int) : Nat := if 0 ≤ i then 2 * i.toNat else 2 * (-i).toNat - 1

theorem ofCode_toCode (i : Int) : ofCode (toCode i) = i := by
  unfold ofCode toCode
  split <;> split <;> omega

theorem toCode_ofCode (n : Nat) : toCode (ofCode n) = n := by
  unfold ofCode toCode
  split <;> split <;> omega

def encode (i : Int64) : UInt64 := UInt64.ofNat (toCode i.toInt)

def decode (n : UInt64) : Int64 := Int64.ofInt (ofCode n.toNat)

end DocWire.Bytes.Zigzag
