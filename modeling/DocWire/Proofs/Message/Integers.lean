import DocWire.Proofs.Bytes.Numerals
import DocWire.Proofs.Expr.Numerals
import DocWire.Proofs.Message.Scalar

/-!
# Integers from their digits to the wire

Digits with a minus sign before them or without are compiled to an integer where a double can hold
it, and kept as text otherwise.  Either way they go over the wire as an integer if it has 64 bits,
and as they are written if not.

* `DigitRun.Literal`       the literal that digits are compiled to;
* `DigitRun.wireFields`    the message that they are sent as;
* `compileExpr_integer`    both, for digits of any length with any number of leading zeros.
-/

namespace DocWire

open Protobuf
open Text (digitsValue)

theorem DenotesInteger.unique {cs : List Char} {y z : Int} (hy : DenotesInteger cs y)
    (hz : DenotesInteger cs z) : y = z := by
  rw [← String.toList_ofList (l := cs), ← integerOfText?_eq_some_iff] at hy hz
  exact Option.some.inj (hy.symm.trans hz)

theorem Scalar.plainFields_sint (i : Int64) :
    (Scalar.sint i).plainFields = [number 1 1, number 2 (Bytes.Zigzag.toCode i.toInt)] := by
  rw [← Bytes.Zigzag.toNat_encode]
  rfl

namespace DigitRun

variable (d : DigitRun) (negative : Bool)

/-- digits as they are written, a minus sign before them or none -/
def text : String := String.ofList (if negative then '-' :: d.chars else d.chars)

/-- The literal of digits: the integer that they denote, or the digits themselves where that is
beyond the range of the safe integers. -/
inductive Literal : Bool → Scalar → Prop
  | uint (n : UInt64) (value : n.toNat = digitsValue d.chars)
    (safe : digitsValue d.chars ≤ maxSafeInteger) : Literal false (.uint n)
  | sint (i : Int64) (value : i.toInt = -(digitsValue d.chars : Int))
    (safe : digitsValue d.chars ≤ maxSafeInteger) : Literal true (.sint i)
  | exact (negative : Bool) (large : maxSafeInteger < digitsValue d.chars) :
    Literal negative (.exact (d.text negative))

/-- The message that digits are sent as: an unsigned integer if there is no minus sign and 64 bits
suffice, a signed one if there is a minus sign, also before a zero, and 64 bits suffice, and the
text in all other cases. -/
def wireFields : List Field :=
  if negative then
    if digitsValue d.chars ≤ 2 ^ 63 then
      [number 1 1, number 2 (Bytes.Zigzag.toCode (-(digitsValue d.chars : Int)))]
    else [number 1 4, message 5 [octets 1 (Text.Utf8.encode (d.text true))]]
  else
    if digitsValue d.chars < 2 ^ 64 then [number 1 2, number 3 (digitsValue d.chars)]
    else [number 1 4, message 5 [octets 1 (Text.Utf8.encode (d.text false))]]

theorem literal_scalar : d.Literal negative (d.numeral.scalar negative) := by
  have hsafe : maxSafeInteger = 2 ^ 53 - 1 := rfl
  unfold Numeral.scalar
  dsimp only
  split
  · rename_i hlarge
    rw [d.text_numeral]
    exact .exact negative hlarge
  · rename_i hsmall
    have h : digitsValue d.chars ≤ maxSafeInteger := Nat.not_lt.mp hsmall
    rw [if_pos (show d.numeral.isIntegral = true from rfl)]
    cases negative with
    | false => exact .uint _ (UInt64.toNat_ofNat_of_lt' (by show _ < 2 ^ 64; omega)) h
    | true => exact .sint _ (Int64.toInt_ofInt_of_le (by omega) (by omega)) h

theorem denotesInteger_text : DenotesInteger (d.text negative).toList
    (if negative then -(digitsValue d.chars : Int) else digitsValue d.chars) := by
  unfold text
  rw [String.toList_ofList]
  cases negative with
  | false => exact .unsigned d.chars d.some d.digits
  | true => exact .minus d.chars d.some d.digits

theorem isSignedText_text : isSignedText (d.text negative) = negative := by
  unfold isSignedText text
  rw [String.toList_ofList]
  cases negative with
  | true => rfl
  | false =>
    refine beq_false_of_ne fun h => ?_
    have := d.digits '-' (List.mem_of_mem_head? h)
    cases this

/-- The text is sent as the integer that it denotes, if that has 64 bits. -/
theorem plainFields_ofExact :
    (Scalar.ofExact (d.text negative)).plainFields = d.wireFields negative := by
  have hdenotes := d.denotesInteger_text negative
  have hsigned := d.isSignedText_text negative
  have harrives := Scalar.exact_arrivesAs (d.text negative)
  generalize Scalar.ofExact (d.text negative) = value at harrives
  unfold wireFields
  cases harrives with
  | same _ inexact => exact absurd rfl (inexact _)
  | uint _ n sign integer =>
    obtain rfl : negative = false := hsigned.symm.trans sign
    have hn : (n.toNat : Int) = digitsValue d.chars := integer.unique hdenotes
    have := n.toNat_lt
    rw [if_neg Bool.false_ne_true, if_pos (by omega), ← Int.natCast_inj.mp hn]
    rfl
  | sint _ i sign integer =>
    obtain rfl : negative = true := hsigned.symm.trans sign
    have hi : i.toInt = -(digitsValue d.chars : Int) := integer.unique hdenotes
    have := i.le_toInt
    rw [if_pos rfl, if_pos (by omega), ← hi]
    exact Scalar.plainFields_sint i
  | bytes _ other =>
    have hother := other _ hdenotes
    cases negative with
    | false =>
      rw [if_neg Bool.false_ne_true] at hother ⊢
      rw [if_neg (by omega)]
      rfl
    | true =>
      rw [if_pos rfl] at hother ⊢
      rw [if_neg (by omega)]
      rfl

end DigitRun

/-- **Integers keep their value up to the wire.**  Digits of any length, with zeros before them or
without, are compiled to the integer that they denote if a double can hold it, and to themselves if
not; and they are sent as that integer if it has 64 bits, and as they are written if not. -/
theorem compileExpr_integer (d : DigitRun) (negative : Bool) (mode : Mode) :
    ∃ value, compileExpr (d.text negative) mode = .ok (.literal value) ∧
      d.Literal negative value ∧ value.fields = d.wireFields negative := by
  refine ⟨d.numeral.scalar negative, ?_, d.literal_scalar negative, ?_⟩
  · have hcompile := compile_numeral d.spelled negative mode (.inl rfl)
    have htext : String.ofList (d.numeral.written negative) = d.text negative := by
      unfold Numeral.written DigitRun.text
      rw [d.text_numeral]
    unfold compileExpr
    rw [← htext, hcompile]
    rfl
  · have hliteral := d.literal_scalar negative
    have hmax : maxSafeInteger = 2 ^ 53 - 1 := rfl
    generalize d.numeral.scalar negative = value at hliteral
    cases hliteral with
    | uint n value safe =>
      unfold DigitRun.wireFields
      rw [if_neg Bool.false_ne_true, if_pos (by omega), ← value]
      rfl
    | sint i value safe =>
      unfold DigitRun.wireFields
      rw [if_pos rfl, if_pos (by omega), ← value]
      exact Scalar.plainFields_sint i
    | exact _ large => exact d.plainFields_ofExact negative

end DocWire
