import DocWire.Proofs.Expr.Formed
import DocWire.Proofs.Message.Scalar

/-!
# Scalars that share a message

A number that is kept as text is written as an integer where it is one of 64 bits, so its leading
zeros are lost. Nothing else is: the literals of texts are told apart by their messages.

* `dropZeros_eq_toDigits`   digits without leading zeros are those of their value;
* `Scalar.trimmed`          a scalar without the zeros that are lost;
* `Scalar.onWire_trimmed`   the zeros are not written;
* `Scalar.trimmed_eq_of_onWire`, `Scalar.trimmed_eq_of_fields`   all else is.
-/

namespace DocWire

open Protobuf
open Text (isDigit digitValue digitsValue)

/-! ## Leading zeros -/

/-- A row of digits without leading zeros, of which the last digit is none. -/
def dropZeros : List Char → List Char
  | '0' :: c :: rest => dropZeros (c :: rest)
  | cs => cs

theorem toNat_of_isDigit {c : Char} (h : isDigit c = true) : 48 ≤ c.toNat ∧ c.toNat ≤ 57 := by
  unfold isDigit at h
  rw [Bool.and_eq_true, decide_eq_true_eq, decide_eq_true_eq] at h
  exact h

theorem digitValue_lt {c : Char} (h : isDigit c = true) : digitValue c < 10 := by
  have hc := toNat_of_isDigit h
  show c.toNat - 48 < 10
  omega

theorem digitChar_digitValue {c : Char} (h : isDigit c = true) :
    Nat.digitChar (digitValue c) = c := by
  have hc := toNat_of_isDigit h
  refine Char.toNat_inj.mp ?_
  rw [Nat.toNat_digitChar_of_lt_ten (digitValue_lt h)]
  show 48 + (c.toNat - 48) = c.toNat
  omega

theorem toDigits_digitValue {c : Char} (h : isDigit c = true) :
    Nat.toDigits 10 (digitValue c) = [c] := by
  rw [Nat.toDigits_of_lt_base (digitValue_lt h), digitChar_digitValue h]

/-- More digits behind those of a number other than zero. -/
theorem toDigits_append {n : Nat} (hn : 0 < n) {cs : List Char}
    (h : ∀ c ∈ cs, isDigit c = true) :
    Nat.toDigits 10 (cs.foldl (fun n c => n * 10 + digitValue c) n) = Nat.toDigits 10 n ++ cs := by
  induction cs generalizing n with
  | nil => exact (List.append_nil _).symm
  | cons c cs ih =>
    have hc := h c List.mem_cons_self
    have happend := Nat.toDigits_append_toDigits (by decide : 1 < 10) hn (digitValue_lt hc)
    rw [toDigits_digitValue hc, Nat.mul_comm] at happend
    rw [List.foldl_cons, ih (by omega) fun d hd => h d (List.mem_cons_of_mem c hd), ← happend,
      List.append_assoc, List.singleton_append]

theorem dropZeros_eq_toDigits {cs : List Char} (hne : cs ≠ [])
    (h : ∀ c ∈ cs, isDigit c = true) : dropZeros cs = Nat.toDigits 10 (digitsValue cs) := by
  fun_induction dropZeros cs with
  | case1 c rest ih =>
    exact ih (List.cons_ne_nil c rest) fun d hd => h d (List.mem_cons_of_mem _ hd)
  | case2 cs hzeros =>
    cases cs with
    | nil => exact absurd rfl hne
    | cons c rest =>
      have hc := h c List.mem_cons_self
      have hrest : ∀ d ∈ rest, isDigit d = true := fun d hd => h d (List.mem_cons_of_mem c hd)
      cases rest with
      | nil =>
        show [c] = Nat.toDigits 10 (0 * 10 + digitValue c)
        rw [Nat.zero_mul, Nat.zero_add, toDigits_digitValue hc]
      | cons d rest =>
        -- the zeros are dropped already, so the first digit is none
        have hpos : 0 < digitValue c := by
          refine Nat.pos_of_ne_zero fun hzero => ?_
          have hdigit := digitChar_digitValue hc
          rw [hzero] at hdigit
          exact hzeros d rest (by rw [← hdigit]; rfl)
        have hvalue : digitsValue (c :: d :: rest)
            = (d :: rest).foldl (fun n c => n * 10 + digitValue c) (digitValue c) := by
          show (d :: rest).foldl _ (0 * 10 + digitValue c) = _
          rw [Nat.zero_mul, Nat.zero_add]
        rw [hvalue, toDigits_append hpos hrest, toDigits_digitValue hc]
        rfl

theorem dropZeros_ne_nil {cs : List Char} (h : cs ≠ []) : dropZeros cs ≠ [] := by
  fun_induction dropZeros cs with
  | case1 c rest ih => exact ih (List.cons_ne_nil c rest)
  | case2 => exact h

theorem mem_of_mem_dropZeros {cs : List Char} {c : Char} (h : c ∈ dropZeros cs) : c ∈ cs := by
  fun_induction dropZeros cs with
  | case1 d rest ih => exact List.mem_cons_of_mem _ (ih h)
  | case2 => exact h

theorem digitsValue_dropZeros (cs : List Char) : digitsValue (dropZeros cs) = digitsValue cs := by
  fun_induction dropZeros cs with
  | case1 c rest ih => exact ih
  | case2 => rfl

/-- A text without the zeros that lead its digits, behind its minus sign if it has one. -/
def trimmedChars : List Char → List Char
  | '-' :: digits => '-' :: dropZeros digits
  | cs => dropZeros cs

theorem trimmedChars_of_unsigned {cs : List Char} (h : cs.head? ≠ some '-') :
    trimmedChars cs = dropZeros cs := by
  unfold trimmedChars
  split
  · exact absurd rfl h
  · rfl

theorem head?_ne_of_digits {cs : List Char} {c : Char} (h : ∀ c ∈ cs, isDigit c = true)
    (hc : isDigit c = false) : cs.head? ≠ some c := by
  intro hhead
  rw [h c (List.mem_of_mem_head? hhead)] at hc
  cases hc

namespace DenotesInteger

variable {cs : List Char} {z : Int}

/-- The zeros do not count. -/
theorem trimmedChars (h : DenotesInteger cs z) : DenotesInteger (trimmedChars cs) z := by
  cases h with
  | unsigned _ hne hall =>
    rw [trimmedChars_of_unsigned (head?_ne_of_digits hall rfl), ← digitsValue_dropZeros]
    exact .unsigned _ (dropZeros_ne_nil hne) fun c hc => hall c (mem_of_mem_dropZeros hc)
  | plus digits hne hall => exact .plus digits hne hall
  | minus digits hne hall =>
    rw [← digitsValue_dropZeros]
    exact .minus _ (dropZeros_ne_nil hne) fun c hc => hall c (mem_of_mem_dropZeros hc)

/-- Without leading zeros an integer has one text, but for a plus sign and for a minus sign before
a zero. -/
theorem trimmedChars_eq (h : DenotesInteger cs z) (hplus : cs.head? ≠ some '+') :
    DocWire.trimmedChars cs = if cs.head? = some '-' then '-' :: Nat.toDigits 10 z.natAbs
      else Nat.toDigits 10 z.natAbs := by
  cases h with
  | unsigned _ hne hall =>
    have hminus : cs.head? ≠ some '-' := head?_ne_of_digits hall rfl
    rw [trimmedChars_of_unsigned hminus, if_neg hminus, dropZeros_eq_toDigits hne hall,
      Int.natAbs_natCast]
  | plus => exact absurd rfl hplus
  | minus digits hne hall =>
    rw [List.head?_cons, if_pos rfl, Int.natAbs_neg, Int.natAbs_natCast,
      ← dropZeros_eq_toDigits hne hall]
    rfl

theorem head?_trimmedChars (h : DenotesInteger cs z) :
    ((DocWire.trimmedChars cs).head? == some '-') = (cs.head? == some '-') := by
  have unsigned {cs : List Char} (hall : ∀ c ∈ cs, isDigit c = true) :
      (cs.head? == some '-') = false := beq_false_of_ne (head?_ne_of_digits hall rfl)
  cases h with
  | unsigned _ hne hall =>
    rw [trimmedChars_of_unsigned (head?_ne_of_digits hall rfl), unsigned hall,
      unsigned fun c hc => hall c (mem_of_mem_dropZeros hc)]
  | plus => rfl
  | minus => rfl

end DenotesInteger

/-! ## Scalars -/

/-- Whether a text is an integer of 64 bits, signed or not. -/
def isInteger64 (text : String) : Bool :=
  (integerOfText? text).any fun z => decide (-(2 ^ 63) ≤ z) && decide (z < 2 ^ 64)

theorem isInteger64_iff {text : String} : isInteger64 text = true ↔
    ∃ z, DenotesInteger text.toList z ∧ -(2 ^ 63) ≤ z ∧ z < 2 ^ 64 := by
  unfold isInteger64
  simp only [Option.any_eq_true, integerOfText?_eq_some_iff, Bool.and_eq_true, decide_eq_true_eq]

/-- a text without the zeros that lead its digits -/
def trimmedText (text : String) : String := String.ofList (trimmedChars text.toList)

theorem not_startsNumber_of_isUpper {c : Char} (h : c.isUpper = true) : startsNumber c = false := by
  have hle : 65 ≤ c.toNat := by
    unfold Char.isUpper at h
    rw [decide_eq_true_eq] at h
    exact h.1
  have hdigit : isDigit c = false := by
    refine Bool.eq_false_iff.mpr fun hdigit => ?_
    have hc := toNat_of_isDigit hdigit
    omega
  have hne (d : Char) (hd : d.toNat < 65) : (c == d) = false := by
    refine beq_false_of_ne ?_
    rintro rfl
    omega
  unfold startsNumber
  rw [hdigit, hne '.' (by decide), hne '-' (by decide)]
  rfl

theorem StartsUpper.not_startsNumber {s : String} (h : StartsUpper s) :
    s.toList.head?.any startsNumber = false := by
  unfold StartsUpper at h
  cases hs : s.toList.head? with
  | none => rfl
  | some c =>
    rw [hs] at h
    exact not_startsNumber_of_isUpper h

namespace Scalar

/-- A scalar without the zeros that do not count: those that lead the digits of an integer of 64
bits that is kept as text. -/
def trimmed : Scalar → Scalar
  | exact text => exact (if isInteger64 text then trimmedText text else text)
  | value => value

/-- What a text is written as, where it is an integer of 64 bits. -/
theorem ofExact_of_denotes {text : String} {z : Int} (h : DenotesInteger text.toList z)
    (hfits : -(2 ^ 63) ≤ z ∧ z < 2 ^ 64) :
    ofExact text = if isSignedText text then .sint (Int64.ofInt z)
      else .uint (UInt64.ofNat z.toNat) := by
  unfold ofExact
  rw [integerOfText?_eq_some_iff.mpr h]
  dsimp only
  cases isSignedText text with
  | false => rw [if_pos (by simpa using hfits.2), if_neg Bool.false_ne_true]
  | true =>
    rw [if_neg (by simp), if_pos (by simpa using hfits.1), if_pos rfl]

section
variable {text : String} {z : Int} (h : DenotesInteger text.toList z)
include h

theorem denotesInteger_trimmedText : DenotesInteger (trimmedText text).toList z := by
  unfold trimmedText
  rw [String.toList_ofList]
  exact h.trimmedChars

theorem isSignedText_trimmedText : isSignedText (trimmedText text) = isSignedText text := by
  unfold isSignedText trimmedText
  rw [String.toList_ofList]
  exact h.head?_trimmedChars

theorem trimmed_exact (hfits : -(2 ^ 63) ≤ z ∧ z < 2 ^ 64) :
    (exact text).trimmed = exact (trimmedText text) := by
  show exact (if isInteger64 text then trimmedText text else text) = _
  rw [if_pos (isInteger64_iff.mpr ⟨z, h, hfits⟩)]

end

/-- The zeros are not written. -/
theorem onWire_trimmed (value : Scalar) : value.trimmed.onWire = value.onWire := by
  cases value with
  | exact text =>
    cases hinteger : isInteger64 text with
    | true =>
      obtain ⟨z, hz, hfits⟩ := isInteger64_iff.mp hinteger
      rw [trimmed_exact hz hfits]
      show ofExact (trimmedText text) = ofExact text
      rw [ofExact_of_denotes (denotesInteger_trimmedText hz) hfits, ofExact_of_denotes hz hfits,
        isSignedText_trimmedText hz]
    | false =>
      show ofExact (if isInteger64 text then trimmedText text else text) = ofExact text
      rw [hinteger, if_neg Bool.false_ne_true]
  | _ => rfl

/-- Texts that denote one integer of 64 bits differ only in zeros. -/
theorem trimmed_eq_of_denotes {text other : String} {z : Int} (h : DenotesInteger text.toList z)
    (hother : DenotesInteger other.toList z) (hfits : -(2 ^ 63) ≤ z ∧ z < 2 ^ 64)
    (hplus : text.toList.head? ≠ some '+') (hplus' : other.toList.head? ≠ some '+')
    (hsign : isSignedText text = isSignedText other) :
    (exact text).trimmed = (exact other).trimmed := by
  have hiff : text.toList.head? = some '-' ↔ other.toList.head? = some '-' := by
    unfold isSignedText at hsign
    rw [← beq_iff_eq, hsign, beq_iff_eq]
  rw [trimmed_exact h hfits, trimmed_exact hother hfits]
  unfold trimmedText
  rw [h.trimmedChars_eq hplus, hother.trimmedChars_eq hplus']
  simp only [hiff]

/-- A number that is kept as text is written like no other literal of a text. -/
theorem not_arrivesAs_of_formed {text : String} {value : Scalar} (htext : (exact text).Formed)
    (hvalue : value.Formed) : ¬ (exact text).ArrivesAs value := by
  intro harrives
  cases htext with
  | exact _ start large =>
    cases harrives with
    | same _ inexact => exact inexact text rfl
    | uint _ n sign integer =>
      cases hvalue with
      | uint _ small =>
        have hlarge := large _ integer
        omega
    | sint _ i sign integer =>
      cases hvalue with
      | sint _ small =>
        have hlarge := large _ integer
        omega
    | bytes =>
      generalize hbytes : Text.Utf8.encode text = b at hvalue
      cases hvalue with
      | bytes word upper =>
        obtain rfl := Text.Utf8.encode_injective hbytes
        rw [upper.not_startsNumber] at start
        cases start

theorem Formed.head?_ne_plus {text : String} (h : (Scalar.exact text).Formed) :
    text.toList.head? ≠ some '+' := by
  intro hplus
  cases h with
  | exact _ start _ =>
    rw [hplus] at start
    cases start

/-- Numbers that are kept as text and written alike differ only in zeros. -/
theorem trimmed_eq_of_arrivesAs {text other : String} {value : Scalar}
    (htext : (exact text).Formed) (hother : (exact other).Formed)
    (h : (exact text).ArrivesAs value) (h' : (exact other).ArrivesAs value) :
    (exact text).trimmed = (exact other).trimmed := by
  cases h with
  | same _ inexact => exact absurd rfl (inexact text)
  | uint _ n sign integer =>
    cases h' with
    | uint _ _ sign' integer' =>
      have hlt := n.toNat_lt
      exact trimmed_eq_of_denotes integer integer' (by omega) htext.head?_ne_plus
        hother.head?_ne_plus (sign.trans sign'.symm)
  | sint _ i sign integer =>
    cases h' with
    | sint _ _ sign' integer' =>
      have hle := i.le_toInt
      have hlt := i.toInt_lt
      exact trimmed_eq_of_denotes integer integer' (by omega) htext.head?_ne_plus
        hother.head?_ne_plus (sign.trans sign'.symm)
  | bytes =>
    generalize hbytes : Text.Utf8.encode text = b at h'
    cases h' with
    | bytes =>
      obtain rfl := Text.Utf8.encode_injective hbytes
      rfl

/-- Only zeros are lost: the literals of texts are told apart by what is written. -/
theorem trimmed_eq_of_onWire {value other : Scalar} (hvalue : value.Formed) (hother : other.Formed)
    (h : value.onWire = other.onWire) : value.trimmed = other.trimmed := by
  have conflict {text : String} {value : Scalar} (htext : (exact text).Formed)
      (hvalue : value.Formed) (h : ofExact text = value) : False :=
    not_arrivesAs_of_formed htext hvalue (h ▸ exact_arrivesAs text)
  cases value with
  | exact text =>
    cases other with
    | exact other =>
      have harrives := exact_arrivesAs text
      rw [show ofExact text = ofExact other from h] at harrives
      exact trimmed_eq_of_arrivesAs hvalue hother harrives (exact_arrivesAs other)
    | _ => exact (conflict hvalue hother h).elim
  | _ =>
    cases other with
    | exact other => exact (conflict hother hvalue h.symm).elim
    | _ => exact congrArg trimmed h

/-! ## Messages of scalars -/

theorem fields_trimmed (value : Scalar) : value.trimmed.fields = value.fields := by
  rw [fields_eq, onWire_trimmed, ← fields_eq]

theorem onWire_eq_of_fields {value other : Scalar}
    (short : (encodeFields value.fields).length < 2 ^ 64) (h : value.fields = other.fields) :
    value.onWire = other.onWire := by
  have read (value : Scalar) {depth : Nat} (hdepth : value.nesting ≤ depth)
      (short : (encodeFields value.fields).length < 2 ^ 64) :
      (ScalarMessage.ofRecord? ⟨depth, value.fields⟩).map ScalarMessage.toScalar
        = some (.ok value.onWire) := by
    rw [ScalarMessage.ofRecord?_fields depth value short, if_pos hdepth, Option.map_some,
      value.toScalar_message]
  have hvalue := read value (Nat.le_max_left value.nesting other.nesting) short
  rw [h] at hvalue short
  have hother := read other (Nat.le_max_right value.nesting other.nesting) short
  exact Except.ok.inj (Option.some.inj (hvalue.symm.trans hother))

/-- The literals of texts are told apart by their messages, but for the zeros that are lost. -/
theorem trimmed_eq_of_fields {value other : Scalar} (hvalue : value.Formed) (hother : other.Formed)
    (short : (encodeFields value.fields).length < 2 ^ 64) (h : value.fields = other.fields) :
    value.trimmed = other.trimmed :=
  trimmed_eq_of_onWire hvalue hother (onWire_eq_of_fields short h)

end Scalar

end DocWire
