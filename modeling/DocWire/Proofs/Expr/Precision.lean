import DocWire.Proofs.Expr.Numerals
import DocWire.Proofs.Number.Range

/-!
# Which numerals keep their precision

A numeral beyond the range of the safe integers is kept as it is written if the digits before its
point are beyond that range, or if no finite double is near it.  Other numerals beyond the range are
rounded.

* `Numeral.magnitude`          the exact value;
* `Numeral.scalar_eq_kept_iff`    what is kept as it is written;
* `Numeral.keepsPrecision_iff`    which numerals beyond the range of the safe integers are.
-/

namespace DocWire

open Text (digitValue digitsValue)

theorem digitsValue_append (a b : List Char) :
    digitsValue (a ++ b) = digitsValue a * 10 ^ b.length + digitsValue b := by
  induction b using List.reverseRecOn with
  | nil => simp [Text.digitsValue_nil]
  | append_singleton b c ih =>
    rw [← List.append_assoc, Text.digitsValue_concat, ih, Text.digitsValue_concat,
      List.length_append, List.length_singleton, Nat.pow_succ]
    ring

namespace Numeral

variable (n : Numeral) (negative : Bool)

/-- The exact value of a numeral, without its sign. -/
def magnitude : ℚ :=
  let fraction := n.fraction.getD []
  (digitsValue n.whole + digitsValue fraction / 10 ^ fraction.length) * 10 ^ n.exponentValue

theorem magnitude_eq : n.magnitude = n.value.digits * 10 ^ n.value.power := by
  have hten : (10 : ℚ) ≠ 0 := by norm_num
  unfold magnitude value
  dsimp only
  rw [digitsValue_append, zpow_sub₀ hten, zpow_natCast]
  push_cast
  field_simp

theorem magnitude_of_isIntegral {n : Numeral} (h : n.isIntegral = true) :
    n.magnitude = digitsValue n.whole := by
  unfold isIntegral at h
  rw [Bool.and_eq_true, Option.isNone_iff_eq_none, List.isEmpty_iff] at h
  unfold magnitude exponentValue
  rw [h.1, h.2]
  simp [Text.digitsValue_nil]

/-- the numeral as text, with its sign -/
def kept : Scalar := .exact (String.ofList (n.written negative))

theorem scalar_eq_kept_iff :
    n.scalar negative = n.kept negative ↔
      maxSafeInteger < digitsValue n.whole ∨
        n.isIntegral = false ∧ 2 ^ 1024 - 2 ^ 970 ≤ n.magnitude := by
  have hfinite := Number.isFinite_ofDecimal n.value.digits n.value.power
  rw [← n.magnitude_eq] at hfinite
  unfold scalar
  dsimp only
  split
  · rename_i hlarge
    exact iff_of_true rfl (.inl hlarge)
  · rename_i hsmall
    split
    · rename_i hintegral
      refine iff_of_false ?_ (not_or.mpr ⟨hsmall, fun h => ?_⟩)
      · cases negative <;> exact Scalar.noConfusion
      · rw [hintegral] at h
        cases h.1
    · rename_i hintegral
      split
      · rename_i h
        exact iff_of_false Scalar.noConfusion
          (not_or.mpr ⟨hsmall, fun hlarge => not_lt.mpr hlarge.2 (hfinite.mp h)⟩)
      · rename_i h
        exact iff_of_true rfl (.inr ⟨Bool.eq_false_iff.mpr hintegral, not_lt.mp (hfinite.not.mp h)⟩)

/-- A numeral beyond the range of the safe integers is kept as it is written, its sign included,
wherever it stands in a text and where it is the whole text. -/
def KeepsPrecision : Prop :=
  maxSafeInteger < n.magnitude →
    (∀ s : Source, read s.rest = n → (numeral negative s).1 = n.kept negative) ∧
    ∀ (mode : Mode) (entry : Entry), entry = .expr ∨ entry = .literal →
      compile (String.ofList (n.written negative)) mode entry
        = .ok (.expr (.literal (n.kept negative)))

/-- **Precision beyond the safe integers.**  It is kept exactly where the digits before the point
are beyond them alone, or the value is nearer to `2 ^ 1024` than to any double below. -/
theorem keepsPrecision_iff {n : Numeral} (hn : n.Spelled) (negative : Bool) :
    n.KeepsPrecision negative ↔
      maxSafeInteger < digitsValue n.whole ∨ n.magnitude ≤ maxSafeInteger ∨
        2 ^ 1024 - 2 ^ 970 ≤ n.magnitude := by
  have hkept := n.scalar_eq_kept_iff negative
  constructor
  · intro h
    by_cases hsafe : n.magnitude ≤ maxSafeInteger
    · exact .inr (.inl hsafe)
    · have hcompile := (h (not_le.mp hsafe)).2 .document .expr (.inl rfl)
      rw [compile_numeral hn negative _ (.inl rfl), Except.ok.injEq, Compiled.expr.injEq,
        Expr.literal.injEq, hkept] at hcompile
      exact hcompile.imp id fun h => .inr h.2
  · intro h hbeyond
    have hscalar : n.scalar negative = n.kept negative := by
      rw [hkept]
      rcases h with hlarge | hsafe | hinfinite
      · exact .inl hlarge
      · exact absurd hbeyond (not_lt.mpr hsafe)
      · cases hintegral : n.isIntegral with
        | false => exact .inr ⟨rfl, hinfinite⟩
        | true =>
          rw [magnitude_of_isIntegral hintegral] at hbeyond
          exact .inl (Nat.cast_lt.mp hbeyond)
    refine ⟨?_, fun mode entry hentry => ?_⟩
    · rintro s rfl
      exact hscalar
    · rw [compile_numeral hn negative mode hentry, hscalar]

theorem keepsPrecision_written :
    let n := read "9007199254740992.5e2".toList
    n.Spelled ∧ n.KeepsPrecision true := by
  intro n
  have hn : n.Spelled := (spelled_read (s := Source.ofList "9007199254740992.5e2".toList) rfl).1
  exact ⟨hn, (keepsPrecision_iff hn true).mpr (.inl (by decide))⟩

/-- The digits behind the point are not looked at. -/
theorem not_keepsPrecision_half :
    let n := read "9007199254740991.5".toList
    n.Spelled ∧ maxSafeInteger < n.magnitude ∧
      compile "9007199254740991.5" .document .expr
        = .ok (.expr (.literal (.double 0x4340000000000000))) ∧
      ¬ n.KeepsPrecision false := by
  intro n
  have hn : n.Spelled := (spelled_read (s := Source.ofList "9007199254740991.5".toList) rfl).1
  have hbeyond : (maxSafeInteger : ℚ) < n.magnitude := by
    show (maxSafeInteger : ℚ) < ((9007199254740991 : Nat) + (5 : Nat) / 10 ^ 1) * 10 ^ (0 : Int)
    norm_num [maxSafeInteger]
  have hcompile : compile "9007199254740991.5" .document .expr
      = .ok (.expr (.literal (.double 0x4340000000000000))) := rfl
  refine ⟨hn, hbeyond, hcompile, fun h => ?_⟩
  have hkept := (h hbeyond).2 .document .expr (.inl rfl)
  rw [show String.ofList (n.written false) = "9007199254740991.5" from rfl, hcompile] at hkept
  cases hkept

end Numeral

end DocWire
