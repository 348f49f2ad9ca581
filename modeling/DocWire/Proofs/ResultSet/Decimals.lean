import DocWire.Proofs.ResultSet.Layouts
import DocWire.Text.Letters
import Mathlib.Data.List.Induction
import Mathlib.Data.Nat.Digits.Defs
import Mathlib.Data.Rat.Defs
import Mathlib.Tactic.FieldSimp
import Mathlib.Tactic.NormNum

/-!
# Decimal values, exactly

Packed digits are worded as a decimal number, whatever their number is: those that the scale asks
for and that are not there are zeros, those before the point that say nothing are left out, and no
other digit is lost.

* `numberOf`                    the number that digits make up;
* `writtenValue`                the exact value of a text;
* `Decimal.writtenValue_text`   the value of the wording of a decimal number;
* `Decimal.exists_hasDigits`    digits are those of a decimal number of any scale;
* `Unsigned`, `signedDigits_fails_iff`   the half bytes that no digits can be read off;
* `Value.decode_decimal_exact`  the whole of it.
-/

namespace DocWire

open Text (digitValue digitsValue)

/-! ## What digits and texts are worth -/

/-- the number that digits make up, the first one having the greatest weight -/
def numberOf (digits : List (Fin 10)) : ℕ := Nat.ofDigits 10 (digits.reverse.map Fin.val)

theorem numberOf_append (a b : List (Fin 10)) :
    numberOf (a ++ b) = numberOf b + 10 ^ b.length * numberOf a := by
  unfold numberOf
  rw [List.reverse_append, List.map_append, Nat.ofDigits_append, List.length_map,
    List.length_reverse]

theorem numberOf_concat (digits : List (Fin 10)) (d : Fin 10) :
    numberOf (digits ++ [d]) = d + 10 * numberOf digits := by
  rw [numberOf_append]
  simp [numberOf]

theorem numberOf_zeros (count : Nat) (digits : List (Fin 10)) :
    numberOf (List.replicate count 0 ++ digits) = numberOf digits := by
  have hzeros : numberOf (List.replicate count 0) = 0 := by
    unfold numberOf
    rw [List.reverse_replicate, List.map_replicate]
    exact Nat.ofDigits_replicate_zero
  rw [numberOf_append, hzeros, Nat.mul_zero, Nat.add_zero]

theorem digitValue_digitChar : ∀ d : Fin 10, digitValue (digitChar d) = d := by decide

theorem digitsValue_digits (digits : List (Fin 10)) :
    digitsValue (digits.map digitChar) = numberOf digits := by
  induction digits using List.reverseRecOn with
  | nil => rfl
  | append_singleton digits d ih =>
    rw [List.map_append, List.map_singleton, Text.digitsValue_concat, ih, digitValue_digitChar,
      numberOf_concat]
    omega

/-- the value of digits, and of digits behind a point if there is one -/
def unsignedValue (text : List Char) : ℚ :=
  let fraction := (text.dropWhile (· ≠ '.')).tail
  digitsValue (text.takeWhile (· ≠ '.')) + digitsValue fraction / 10 ^ fraction.length

/-- The exact value of a text that may start with a minus. -/
def writtenValue : List Char → ℚ
  | '-' :: text => -unsignedValue text
  | text => unsignedValue text

theorem writtenValue_minus (text : List Char) : writtenValue ('-' :: text) = -unsignedValue text :=
  rfl

theorem digitChar_ne_minus : ∀ d : Fin 10, digitChar d ≠ '-' := by decide

theorem writtenValue_digit (d : Fin 10) (text : List Char) :
    writtenValue (digitChar d :: text) = unsignedValue (digitChar d :: text) := by
  have hd : digitChar d ≠ '-' := digitChar_ne_minus d
  unfold writtenValue
  split
  · rename_i h
    exact absurd (List.cons.inj h).1 hd
  · rfl

/-! ## Decimal numbers -/

namespace Decimal

theorem digitChar_ne_point : ∀ d : Fin 10, decide (digitChar d ≠ '.') = true := by decide

/-- The point, or the end, tells the digits before it from those behind it. -/
theorem unsignedValue_digits (whole fraction : List (Fin 10)) :
    unsignedValue (whole.map digitChar
        ++ if fraction = [] then [] else '.' :: fraction.map digitChar)
      = numberOf whole + numberOf fraction / 10 ^ fraction.length := by
  have hwhole : ∀ c ∈ whole.map digitChar, decide (c ≠ '.') = true := by
    intro c hc
    obtain ⟨d, -, rfl⟩ := List.mem_map.mp hc
    exact digitChar_ne_point d
  unfold unsignedValue
  rw [List.takeWhile_append_of_pos hwhole, List.dropWhile_append_of_pos hwhole]
  by_cases h : fraction = []
  · subst h
    simp [digitsValue_digits, numberOf, Text.digitsValue_nil]
  · simp [h, digitsValue_digits]

/-- The wording of a decimal number is worth its digits, as many of them behind the point as there
are behind it. -/
theorem writtenValue_text (d : Decimal) :
    writtenValue d.text
      = (if d.negative then -1 else 1) * numberOf (d.whole ++ d.fraction)
        / 10 ^ d.fraction.length := by
  have hten : (10 : ℚ) ^ d.fraction.length ≠ 0 := by positivity
  have hvalue : (numberOf d.whole + numberOf d.fraction / 10 ^ d.fraction.length : ℚ)
      = numberOf (d.whole ++ d.fraction) / 10 ^ d.fraction.length := by
    rw [numberOf_append]
    push_cast
    field_simp
    ring
  have hunsigned := (unsignedValue_digits d.whole d.fraction).trans hvalue
  unfold text
  cases d.negative with
  | true =>
    rw [if_pos rfl, if_pos rfl, List.append_assoc, List.singleton_append, writtenValue_minus,
      hunsigned]
    ring
  | false =>
    obtain ⟨first, rest, hwhole⟩ : ∃ first rest, d.whole = first :: rest := by
      rcases d.tight with h | ⟨first, rest, h, -⟩
      · exact ⟨0, [], h⟩
      · exact ⟨first, rest, h⟩
    rw [if_neg Bool.false_ne_true, if_neg Bool.false_ne_true, List.nil_append, one_mul,
      ← hunsigned, hwhole]
    exact writtenValue_digit first _

/-- The zeros in front of digits can be left out, but for one if nothing else is left. -/
theorem exists_tight {digits : List (Fin 10)} (h : digits ≠ []) :
    ∃ count whole, digits = List.replicate count 0 ++ whole ∧
      (whole = [0] ∨ ∃ d rest, whole = d :: rest ∧ d ≠ 0) := by
  induction digits with
  | nil => exact absurd rfl h
  | cons d rest ih =>
    by_cases hd : d = 0
    · cases rest with
      | nil => exact ⟨0, [d], rfl, .inl (by rw [hd])⟩
      | cons next rest =>
        obtain ⟨count, whole, hrest, tight⟩ := ih (List.cons_ne_nil _ _)
        exact ⟨count + 1, whole, by rw [hd, hrest]; rfl, tight⟩
    · exact ⟨0, d :: rest, rfl, .inr ⟨d, rest, rfl, hd⟩⟩

/-- Any digits, be they too few for the scale or none at all, are those of a decimal number with as
many digits behind the point as the scale says. -/
theorem exists_hasDigits (negative : Bool) (digits : List (Fin 10)) (scale : Nat) :
    ∃ d : Decimal, d.negative = negative ∧ d.fraction.length = scale ∧ d.HasDigits digits := by
  have hlength : scale < (List.replicate (scale + 1 - digits.length) 0 ++ digits).length := by
    rw [List.length_append, List.length_replicate]
    omega
  generalize hpadded : List.replicate (scale + 1 - digits.length) 0 ++ digits = padded at hlength
  have hfraction : (padded.drop (padded.length - scale)).length = scale := by
    rw [List.length_drop]
    omega
  have hwhole : padded.take (padded.length - scale) ≠ [] := by
    rw [← List.length_pos_iff, List.length_take]
    omega
  obtain ⟨count, whole, hzeros, tight⟩ := exists_tight hwhole
  refine ⟨⟨negative, whole, padded.drop (padded.length - scale), tight⟩, rfl, hfraction,
    scale + 1 - digits.length, count, ?_⟩
  rw [hpadded, ← hzeros, List.take_append_drop]

theorem HasDigits.numberOf_eq {d : Decimal} {digits : List (Fin 10)} (h : d.HasDigits digits) :
    numberOf (d.whole ++ d.fraction) = numberOf digits := by
  obtain ⟨more, less, h⟩ := h
  rw [← numberOf_zeros more digits, h, List.append_assoc, numberOf_zeros]

end Decimal

/-! ## Half bytes -/

def signHalf (negative : Bool) : Nat := if negative then 13 else 12

/-- Half bytes among which something other than a digit comes before the first sign, or no sign
comes at all. -/
def Unsigned (halves : List Nat) : Prop :=
  (∃ front n rest, halves = front ++ n :: rest ∧ (∀ m ∈ front, ∀ negative, m ≠ signHalf negative) ∧
    n ∈ [10, 11, 14, 15]) ∨
  ∀ n ∈ halves, ∀ negative, n ≠ signHalf negative

theorem unsigned_cons_iff {n : Nat} (h : ∀ negative, n ≠ signHalf negative) (rest : List Nat) :
    Unsigned (n :: rest) ↔ n ∈ [10, 11, 14, 15] ∨ Unsigned rest := by
  constructor
  · rintro (⟨front, m, after, heq, hfront, hm⟩ | hnone)
    · cases front with
      | nil =>
        obtain ⟨rfl, -⟩ := List.cons.inj heq
        exact .inl hm
      | cons first front =>
        exact .inr (.inl ⟨front, m, after, (List.cons.inj heq).2,
          (List.forall_mem_cons.mp hfront).2, hm⟩)
    · exact .inr (.inr (List.forall_mem_cons.mp hnone).2)
  · rintro (hn | ⟨front, m, after, rfl, hfront, hm⟩ | hnone)
    · exact .inl ⟨[], n, rest, rfl, List.forall_mem_nil _, hn⟩
    · exact .inl ⟨n :: front, m, after, rfl, List.forall_mem_cons.mpr ⟨h, hfront⟩, hm⟩
    · exact .inr (List.forall_mem_cons.mpr ⟨h, hnone⟩)

theorem not_unsigned_sign (negative : Bool) (rest : List Nat) :
    ¬Unsigned (signHalf negative :: rest) := by
  rintro (⟨front, m, after, heq, hfront, hm⟩ | hnone)
  · cases front with
    | nil =>
      obtain ⟨rfl, -⟩ := List.cons.inj heq
      cases negative <;> exact absurd hm (by decide)
    | cons first front =>
      exact (List.forall_mem_cons.mp hfront).1 negative (List.cons.inj heq).1.symm
  · exact (List.forall_mem_cons.mp hnone).1 negative rfl

theorem lt_of_mem_nibbles {bytes : List UInt8} {n : Nat} (h : n ∈ nibbles bytes) : n < 16 := by
  obtain ⟨b, -, hb⟩ := List.mem_flatMap.mp h
  have hbyte := b.toNat_lt
  rw [List.mem_pair] at hb
  omega

/-- Digits cannot be read off half bytes just where they are unsigned. -/
theorem signedDigits_fails_iff {halves : List Nat} (h : ∀ n ∈ halves, n < 16) :
    (∃ what, signedDigits halves = .error what) ↔ Unsigned halves := by
  induction halves with
  | nil => exact iff_of_true ⟨_, rfl⟩ (.inr (List.forall_mem_nil _))
  | cons n rest ih =>
    obtain ⟨hn, hrest⟩ := List.forall_mem_cons.mp h
    rw [signedDigits]
    split
    · rename_i hdigit
      have hsign : ∀ negative, n ≠ signHalf negative := by
        intro negative
        cases negative <;> simp [signHalf] <;> omega
      have hfew : n ∉ [10, 11, 14, 15] := by
        simp only [List.mem_cons, List.not_mem_nil, or_false]
        omega
      rw [unsigned_cons_iff hsign, or_iff_right hfew, ← ih hrest]
      cases signedDigits rest <;> simp [Except.map]
    · split
      · rename_i hplus
        subst hplus
        exact iff_of_false (by simp) (not_unsigned_sign false rest)
      · split
        · rename_i hminus
          subst hminus
          exact iff_of_false (by simp) (not_unsigned_sign true rest)
        · refine iff_of_true ⟨_, rfl⟩ (.inl ⟨[], n, rest, rfl, List.forall_mem_nil _, ?_⟩)
          simp only [List.mem_cons, List.not_mem_nil, or_false]
          omega

/-! ## Fields -/

namespace FieldReader

variable {α β : Type} {r : FieldReader α} {k : α → FieldReader β} {bytes : List UInt8} {a : α}

theorem Takes.run_bind (h : r.Takes bytes a) (passed rest : List UInt8) :
    (r >>= k).run ⟨passed, bytes ++ rest⟩ = (k a).run ⟨bytes.reverse ++ passed, rest⟩ := by
  rw [StateT.run_bind, h]
  rfl

theorem Finishes.run_bind (h : r.Finishes bytes a) (passed : List UInt8) :
    (r >>= k).run ⟨passed, bytes⟩ = (k a).run ⟨bytes.reverse ++ passed, []⟩ := by
  rw [StateT.run_bind, h]
  rfl

end FieldReader

namespace Value

variable {column : Column}

theorem decode_decimal (type : column.type = .decimal) (scale : UInt8) (packed : List UInt8) :
    decode column (scale :: packed)
      = match signedDigits (nibbles packed) with
        | .ok (digits, negative) =>
          .ok (decimal (String.ofList (decimalText negative digits scale.toNat)))
        | .error what => .error (.undecodable what) := by
  unfold decode FieldReader.decimal
  rw [if_neg (by simp), type]
  dsimp only
  have hscale := FieldReader.takes_of (Bytes.Reader.byte_takes scale)
  have hpacked := FieldReader.rest_finishes packed
  rw [Bytes.Cursor.ofList, ← List.singleton_append, hscale.run_bind, hpacked.run_bind]
  cases signedDigits (nibbles packed) with
  | error what => rfl
  | ok found => rfl

/-- **Decimal values are exact.**  Digits, however many, and a sign behind them are read as the
decimal number that has this sign, as many digits behind the point as the scale says and none before
it that could be left out, and whose wording is worth just what the digits are, divided by the power
of ten of the scale.  A field is refused just where something else comes before the first sign, or
no sign comes. -/
theorem decode_decimal_exact (type : column.type = .decimal) (scale : UInt8)
    (packed : List UInt8) :
    (∀ (digits : List (Fin 10)) (negative : Bool) (rest : List Nat),
      nibbles packed = digits.map Fin.val ++ signHalf negative :: rest →
      ∃ d : Decimal, decode column (scale :: packed) = .ok (decimal (String.ofList d.text)) ∧
        d.negative = negative ∧ d.fraction.length = scale.toNat ∧
        writtenValue d.text
          = (if negative then -1 else 1) * numberOf digits / 10 ^ scale.toNat) ∧
    ((∃ what, decode column (scale :: packed) = .error (.undecodable what)) ↔
      Unsigned (nibbles packed)) ∧
    ((∃ text, decode column (scale :: packed) = .ok (decimal text)) ↔
      ¬Unsigned (nibbles packed)) := by
  have hfails := signedDigits_fails_iff fun n (hn : n ∈ nibbles packed) => lt_of_mem_nibbles hn
  rw [decode_decimal type, ← hfails]
  refine ⟨?_, ?_, ?_⟩
  · intro digits negative rest hhalves
    obtain ⟨d, rfl, hscale, hdigits⟩ := Decimal.exists_hasDigits negative digits scale.toNat
    refine ⟨d, ?_, rfl, hscale, ?_⟩
    · have hsigned : signedDigits (nibbles packed) = .ok (digits.map digitChar, d.negative) :=
        hhalves ▸ signedDigits_eq digits d rest
      rw [hsigned, ← hscale, ← decimalText_eq d hdigits]
    · rw [d.writtenValue_text, hdigits.numberOf_eq, hscale]
  · cases signedDigits (nibbles packed) with
    | error what => exact iff_of_true ⟨what, rfl⟩ ⟨what, rfl⟩
    | ok found => exact iff_of_false (by simp) (by simp)
  · cases signedDigits (nibbles packed) with
    | error what => exact iff_of_false (by simp) (by simp)
    | ok found => exact iff_of_true ⟨_, rfl⟩ (by simp)

/-- A hundredth of one, with a zero more than is needed before it and bytes behind the sign. -/
theorem decode_decimal_exact_hundredth :
    nibbles [0x00, 0x1d, 0xff]
      = ([0, 0, 1] : List (Fin 10)).map Fin.val ++ signHalf true :: [15, 15] ∧
    decode { type := .decimal } [2, 0x00, 0x1d, 0xff] = .ok (decimal "-0.01") ∧
    ∃ d : Decimal, decode { type := .decimal } [2, 0x00, 0x1d, 0xff]
        = .ok (decimal (String.ofList d.text)) ∧
      d.negative = true ∧ d.fraction.length = 2 ∧
      writtenValue d.text = (if true then -1 else 1) * numberOf [0, 0, 1] / 10 ^ 2 :=
  ⟨rfl, rfl, (decode_decimal_exact rfl 2 [0x00, 0x1d, 0xff]).1 [0, 0, 1] true [15, 15] rfl⟩

end Value

end DocWire
