import DocWire.Number.Natural

/-!
# Varints

Natural numbers below `2 ^ 64` in base 128, least significant digit first; every byte but the last
has its high bit set. At most ten bytes are read.

* `encode`, `decode`           writing and reading;
* `decodeWithin_encodeWithin`  reading takes back what was written, and no more.
-/

namespace DocWire.Protobuf.Varint

/-- the digits of a number in at most `more + 1` bytes -/
def encodeWithin : Nat → Nat → List UInt8
  | 0, n => [UInt8.ofNat n]
  | more + 1, n =>
    if n < 128 then [UInt8.ofNat n]
    else UInt8.ofNat (n % 128 + 128) :: encodeWithin more (n / 128)

/-- The digits of a number below `2 ^ 64`. -/
def encode (n : Nat) : List UInt8 := encodeWithin 9 n

/-- the number that is next in at most `count` bytes, and the bytes after it -/
def decodeWithin : Nat → List UInt8 → Option (Nat × List UInt8)
  | 0, _ => none
  | _ + 1, [] => none
  | count + 1, b :: rest =>
    if b.toNat < 128 then some (b.toNat, rest)
    else (decodeWithin count rest).map fun (n, after) => (b.toNat - 128 + 128 * n, after)

/-- The number that is next, if it has at most ten bytes and fits 64 bits. -/
def decode (bytes : List UInt8) : Option (Nat × List UInt8) :=
  (decodeWithin 10 bytes).filter fun (n, _) => n < 2 ^ 64

theorem decodeWithin_encodeWithin (more n : Nat) (rest : List UInt8) (h : n < 128 ^ (more + 1)) :
    decodeWithin (more + 1) (encodeWithin more n ++ rest) = some (n, rest) := by
  induction more generalizing n with
  | zero =>
    have small : n < 128 := by simpa using h
    have byte : (UInt8.ofNat n).toNat = n := by simp; omega
    simp [encodeWithin, decodeWithin, byte, small]
  | succ more ih =>
    rw [encodeWithin]
    by_cases small : n < 128
    · have byte : (UInt8.ofNat n).toNat = n := by simp; omega
      simp [decodeWithin, byte, small]
    · have byte : (UInt8.ofNat (n % 128 + 128)).toNat = n % 128 + 128 := by simp; omega
      have quotient : n / 128 < 128 ^ (more + 1) := by
        rw [Nat.div_lt_iff_lt_mul (by omega), ← Nat.pow_succ]
        exact h
      rw [if_neg small, List.cons_append, decodeWithin, ih _ quotient, byte, if_neg (by omega)]
      simp only [Option.map_some, Option.some.injEq, Prod.mk.injEq, and_true]
      omega

end DocWire.Protobuf.Varint
