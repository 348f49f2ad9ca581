import DocWire.Message.Scalar
import DocWire.Proofs.Protobuf.Fields
import DocWire.Proofs.Text.Utf8

/-!
# Scalars on the wire and back

A scalar arrives as it was sent, but for a number that was given as text: it arrives as an integer
where the text is one of 64 bits, and as the bytes of the text otherwise.

* `DenotesInteger`, `integerOfText?_eq_some_iff`   the integer that a text denotes;
* `Scalar.ArrivesAs`            what becomes of a scalar on the way;
* `Scalar.nesting`              the messages that nest in the message of a scalar;
* `ScalarMessage.ofRecord?_fields`, `ScalarMessage.toScalar_message`   the message, and its scalar.
-/

namespace DocWire

open Protobuf
open Text (isDigit digitsValue)

/-! ## Integers in texts -/

/-- Digits, with a sign before them or without, denote an integer. -/
inductive DenotesInteger : List Char → Int → Prop
  | unsigned (digits : List Char) (some : digits ≠ []) (all : ∀ c ∈ digits, isDigit c = true) :
    DenotesInteger digits (digitsValue digits)
  | plus (digits : List Char) (some : digits ≠ []) (all : ∀ c ∈ digits, isDigit c = true) :
    DenotesInteger ('+' :: digits) (digitsValue digits)
  | minus (digits : List Char) (some : digits ≠ []) (all : ∀ c ∈ digits, isDigit c = true) :
    DenotesInteger ('-' :: digits) (-(digitsValue digits : Int))

theorem isDigits_iff {cs : List Char} :
    (!cs.isEmpty && cs.all isDigit) = true ↔ cs ≠ [] ∧ ∀ c ∈ cs, isDigit c = true := by
  simp

theorem integerOfText?_eq_some_iff {text : String} {z : Int} :
    integerOfText? text = some z ↔ DenotesInteger text.toList z := by
  unfold integerOfText?
  dsimp only
  generalize text.toList = cs
  constructor
  · intro h
    split at h
    · obtain ⟨n, hn, rfl⟩ := Option.map_eq_some_iff.mp h
      rw [Option.ite_none_right_eq_some] at hn
      obtain ⟨hdigits, hn⟩ := hn
      obtain rfl := Option.some.inj hn
      obtain ⟨hne, hall⟩ := isDigits_iff.mp hdigits
      exact .minus _ hne hall
    · rw [Option.ite_none_right_eq_some] at h
      obtain ⟨hdigits, h⟩ := h
      obtain rfl := Option.some.inj h
      obtain ⟨hne, hall⟩ := isDigits_iff.mp hdigits
      exact .plus _ hne hall
    · rw [Option.ite_none_right_eq_some] at h
      obtain ⟨hdigits, h⟩ := h
      obtain rfl := Option.some.inj h
      obtain ⟨hne, hall⟩ := isDigits_iff.mp hdigits
      exact .unsigned _ hne hall
  · intro h
    cases h with
    | unsigned _ hne hall =>
      split
      · exact absurd (hall '-' List.mem_cons_self) (by decide)
      · exact absurd (hall '+' List.mem_cons_self) (by decide)
      · rw [if_pos (isDigits_iff.mpr ⟨hne, hall⟩)]
    | plus digits hne hall =>
      show (if _ then some _ else none) = _
      rw [if_pos (isDigits_iff.mpr ⟨hne, hall⟩)]
    | minus digits hne hall =>
      show (if _ then some _ else none).map _ = _
      rw [if_pos (isDigits_iff.mpr ⟨hne, hall⟩)]
      rfl

/-- A text with a minus sign denotes no positive number, and one without denotes no negative
one. -/
theorem DenotesInteger.sign {text : String} {z : Int} (h : DenotesInteger text.toList z) :
    if isSignedText text then z ≤ 0 else 0 ≤ z := by
  unfold isSignedText
  cases hcs : text.toList with
  | nil =>
    rw [hcs] at h
    cases h with
    | unsigned _ hne _ => exact absurd rfl hne
  | cons c cs =>
    rw [hcs] at h
    cases h with
    | unsigned _ hne hall =>
      have hc : c ≠ '-' := by
        rintro rfl
        exact absurd (hall '-' List.mem_cons_self) (by decide)
      simp [hc]
    | plus _ hne hall => simp
    | minus _ hne hall => simp

/-! ## What becomes of a scalar -/

namespace Scalar

/-- What a scalar is received as. -/
inductive ArrivesAs : Scalar → Scalar → Prop
  | same (value : Scalar) (inexact : ∀ text, value ≠ exact text) : ArrivesAs value value
  /-- an integer without a minus sign -/
  | uint (text : String) (n : UInt64) (sign : isSignedText text = false)
    (integer : DenotesInteger text.toList n.toNat) : ArrivesAs (exact text) (uint n)
  /-- an integer with a minus sign -/
  | sint (text : String) (i : Int64) (sign : isSignedText text = true)
    (integer : DenotesInteger text.toList i.toInt) : ArrivesAs (exact text) (sint i)
  /-- a text that denotes no integer of 64 bits -/
  | bytes (text : String)
    (other : ∀ z, DenotesInteger text.toList z → z < -(2 ^ 63) ∨ 2 ^ 64 ≤ z) :
    ArrivesAs (exact text) (bytes (Text.Utf8.encode text))

theorem exact_arrivesAs (text : String) : (exact text).ArrivesAs (ofExact text) := by
  unfold ofExact
  cases hz : integerOfText? text with
  | none =>
    refine .bytes text fun z h => ?_
    rw [integerOfText?_eq_some_iff.mpr h] at hz
    cases hz
  | some z =>
    have hinteger := integerOfText?_eq_some_iff.mp hz
    have hsign := hinteger.sign
    have other (h : z < -(2 ^ 63) ∨ 2 ^ 64 ≤ z) :
        (exact text).ArrivesAs (.bytes (Text.Utf8.encode text)) := by
      refine .bytes text fun y hy => ?_
      rw [integerOfText?_eq_some_iff.mpr hy] at hz
      rwa [Option.some.inj hz]
    dsimp only
    cases hminus : isSignedText text with
    | false =>
      rw [hminus] at hsign
      replace hsign : 0 ≤ z := hsign
      by_cases hsmall : z < 2 ^ 64
      · have hn : ((UInt64.ofNat z.toNat).toNat : Int) = z := by
          rw [UInt64.toNat_ofNat', Nat.mod_eq_of_lt (by omega)]
          omega
        rw [if_pos (by simpa using hsmall)]
        exact .uint text _ hminus (by rw [hn]; exact hinteger)
      · rw [if_neg (by simpa using hsmall), if_neg (by simp)]
        exact other (by omega)
    | true =>
      rw [hminus] at hsign
      replace hsign : z ≤ 0 := hsign
      by_cases hsmall : -(2 ^ 63) ≤ z
      · have hi : (Int64.ofInt z).toInt = z := Int64.toInt_ofInt_of_le hsmall (by omega)
        rw [if_neg (by simp), if_pos (by simpa using hsmall)]
        exact .sint text _ hminus (by rw [hi]; exact hinteger)
      · rw [if_neg (by simp), if_neg (by simpa using hsmall)]
        exact other (by omega)

/-- the scalar that is written -/
def onWire : Scalar → Scalar
  | exact text => ofExact text
  | value => value

theorem fields_eq (value : Scalar) : value.fields = value.onWire.plainFields := by
  cases value <;> rfl

theorem ofExact_inexact (text other : String) : ofExact text ≠ exact other := by
  intro h
  have harrives := exact_arrivesAs text
  rw [h] at harrives
  cases harrives with
  | same _ inexact => exact inexact text rfl

theorem onWire_inexact (value : Scalar) (text : String) : value.onWire ≠ exact text := by
  cases value with
  | exact written => exact ofExact_inexact written text
  | _ => exact Scalar.noConfusion

theorem arrivesAs_onWire (value : Scalar) : value.ArrivesAs value.onWire := by
  cases value with
  | exact text => exact exact_arrivesAs text
  | _ => exact .same _ fun _ => Scalar.noConfusion

/-- how deep messages nest in the message of a scalar that is written as it is -/
def plainNesting : Scalar → Nat
  | str _ | bytes _ | exact _ => 1
  | _ => 0

/-- How deep messages nest in the message of a scalar. -/
def nesting (value : Scalar) : Nat := value.onWire.plainNesting

theorem plainFields_writable (value : Scalar) : ∀ f ∈ value.plainFields, f.Writable := by
  intro f hf
  cases value with
  | null =>
    obtain rfl := List.mem_singleton.mp hf
    exact writable_number (by decide) (by decide)
  | bool b =>
    rcases List.mem_pair.mp hf with rfl | rfl
    · exact writable_number (by decide) (by decide)
    · exact writable_number (by decide) (by cases b <;> decide)
  | sint i =>
    rcases List.mem_pair.mp hf with rfl | rfl
    · exact writable_number (by decide) (by decide)
    · exact writable_number (by decide) (UInt64.toNat_lt _)
  | uint n =>
    rcases List.mem_pair.mp hf with rfl | rfl
    · exact writable_number (by decide) (by decide)
    · exact writable_number (by decide) n.toNat_lt
  | double bits =>
    rcases List.mem_pair.mp hf with rfl | rfl
    · exact writable_number (by decide) (by decide)
    · exact ⟨Nat.succ_pos 5, (by decide : 6 < 2 ^ 29), bits.toNat_lt⟩
  | exact _ | str _ | bytes _ =>
    rcases List.mem_pair.mp hf with rfl | rfl
    · exact writable_number (by decide) (by decide)
    · exact writable_octets _ (by decide)

theorem fields_writable (value : Scalar) : ∀ f ∈ value.fields, f.Writable := by
  rw [fields_eq]
  exact plainFields_writable _

/-! ## The message of a scalar -/

/-- the message of a type without a value -/
def emptyMessage (type : Int32) : ScalarMessage := ⟨type, none, none, none, none, none, none, none⟩

def message : Scalar → ScalarMessage
  | null => emptyMessage 3
  | bool b => { emptyMessage 7 with bool := some b }
  | sint i => { emptyMessage 1 with sint := some i }
  | uint n => { emptyMessage 2 with uint := some n }
  | double bits => { emptyMessage 5 with double := some bits }
  | exact text => { emptyMessage 4 with octets := some (Text.Utf8.encode text) }
  | str s => { emptyMessage 8 with string := some (Text.Utf8.encode s) }
  | bytes b => { emptyMessage 4 with octets := some b }

theorem toScalar_message (value : Scalar) : value.onWire.message.toScalar = .ok value.onWire := by
  have hinexact := onWire_inexact value
  cases hw : value.onWire with
  | exact text => exact absurd hw (hinexact text)
  | str s =>
    have hread : (str s).message.toScalar
        = .ok (str (Text.Utf8.decodeLossy (Text.Utf8.encode s))) := rfl
    rw [hread, Text.Utf8.decodeLossy_encode]
  | _ => rfl

end Scalar

namespace ScalarMessage

theorem onlyKnown?_of_all {r : Record} {known : List Nat}
    (h : r.fields.any (fun f => !known.contains f.number) = false) :
    r.onlyKnown? known = some () := by
  unfold Record.onlyKnown?
  rw [h]
  simp

section
variable {depth k : Nat} {fields : List Field} {α : Type} {companion : Record → Option α}

theorem withCompanion?_octets {b : List UInt8} {a : α}
    (hcontents : (Record.mk (depth + 1) fields).contents k
      = [.bytes (encodeFields [Protobuf.octets 1 b])])
    (short : (encodeFields [Protobuf.octets 1 b]).length < 2 ^ 64)
    (hcompanion : companion ⟨depth, [Protobuf.octets 1 b]⟩ = some a) :
    withCompanion? companion ⟨depth + 1, fields⟩ k = some (some b) := by
  have hwritable : ∀ f ∈ [Protobuf.octets 1 b], f.Writable := by
    intro f hf
    obtain rfl := List.mem_singleton.mp hf
    exact writable_octets b (by decide)
  unfold withCompanion?
  rw [Record.record?_of_contents hcontents hwritable short]
  show ((companion ⟨depth, [Protobuf.octets 1 b]⟩).bind fun _ =>
    ((Record.mk depth [Protobuf.octets 1 b]).onlyKnown? [1, 2]).bind fun _ => some (some b)) = _
  rw [hcompanion, onlyKnown?_of_all rfl]
  rfl

theorem withCompanion?_of_depth_zero {content : Content} {more : List Content}
    (hcontents : (Record.mk 0 fields).contents k = content :: more) :
    withCompanion? companion ⟨0, fields⟩ k = none := by
  unfold withCompanion?
  rw [Record.record?_of_depth_zero hcontents]
  rfl

end

/-- The message of a record, from its parts. -/
theorem ofRecord?_eq_some {r : Record} {type : Option Int32} {sint : Option Int64}
    {uint double : Option UInt64} {octets string : Option (List UInt8)} {float : Option UInt32}
    {bool : Option Bool} (htype : r.enum? 1 = some type) (hsint : r.sint64? 2 = some sint)
    (huint : r.uint64? 3 = some uint)
    (hoctets : withCompanion? (·.uint32? 2) r 5 = some octets)
    (hdouble : r.double? 6 = some double) (hfloat : r.float? 7 = some float)
    (hbool : r.bool? 8 = some bool) (hstring : withCompanion? (·.uint64? 2) r 9 = some string)
    (hknown : r.fields.any (fun f => !List.contains [1, 2, 3, 5, 6, 7, 8, 9] f.number) = false) :
    ofRecord? r = some ⟨type.getD 1, sint, uint, octets, double, float, bool, string⟩ := by
  unfold ofRecord?
  rw [htype, hsint, huint, hoctets, hdouble, hfloat, hbool, hstring, onlyKnown?_of_all hknown]
  rfl

theorem ofRecord?_octets (depth : Nat) (b : List UInt8)
    (short : (encodeFields (Scalar.bytes b).plainFields).length < 2 ^ 64) :
    ofRecord? ⟨depth, (Scalar.bytes b).plainFields⟩
      = if 1 ≤ depth then some (Scalar.bytes b).message else none := by
  have hinner : (encodeFields [Protobuf.octets 1 b]).length < 2 ^ 64 :=
    Nat.lt_of_le_of_lt (length_message (List.mem_cons_of_mem _ List.mem_cons_self)) short
  cases depth with
  | zero =>
    have hnone : withCompanion? (·.uint32? 2) ⟨0, (Scalar.bytes b).plainFields⟩ 5 = none :=
      withCompanion?_of_depth_zero rfl
    unfold ofRecord?
    rw [hnone]
    rfl
  | succ depth =>
    have hsome : withCompanion? (·.uint32? 2) ⟨depth + 1, (Scalar.bytes b).plainFields⟩ 5
        = some (some b) := withCompanion?_octets rfl hinner rfl
    rw [if_pos (by omega), ofRecord?_eq_some rfl rfl rfl hsome rfl rfl rfl rfl rfl]
    rfl

theorem ofRecord?_string (depth : Nat) (s : String)
    (short : (encodeFields (Scalar.str s).plainFields).length < 2 ^ 64) :
    ofRecord? ⟨depth, (Scalar.str s).plainFields⟩
      = if 1 ≤ depth then some (Scalar.str s).message else none := by
  have hinner : (encodeFields [Protobuf.octets 1 (Text.Utf8.encode s)]).length < 2 ^ 64 :=
    Nat.lt_of_le_of_lt (length_message (List.mem_cons_of_mem _ List.mem_cons_self)) short
  cases depth with
  | zero =>
    have hnone : withCompanion? (·.uint64? 2) ⟨0, (Scalar.str s).plainFields⟩ 9 = none :=
      withCompanion?_of_depth_zero rfl
    unfold ofRecord?
    rw [hnone]
    rfl
  | succ depth =>
    have hsome : withCompanion? (·.uint64? 2) ⟨depth + 1, (Scalar.str s).plainFields⟩ 9
        = some (some (Text.Utf8.encode s)) := withCompanion?_octets rfl hinner rfl
    rw [if_pos (by omega), ofRecord?_eq_some rfl rfl rfl rfl rfl rfl rfl hsome rfl]
    rfl

theorem ofRecord?_plainFields (depth : Nat) (value : Scalar)
    (short : (encodeFields value.plainFields).length < 2 ^ 64) :
    ofRecord? ⟨depth, value.plainFields⟩ =
      if value.plainNesting ≤ depth then some value.message else none := by
  cases value with
  | null =>
    refine Eq.trans ?_ (if_pos (Nat.zero_le depth)).symm
    exact ofRecord?_eq_some (r := ⟨depth, Scalar.null.plainFields⟩) rfl rfl rfl rfl rfl rfl rfl rfl
      rfl
  | bool b =>
    refine Eq.trans ?_ (if_pos (Nat.zero_le depth)).symm
    have hbool : (Record.mk depth (Scalar.bool b).plainFields).bool? 8 = some (some b) := by
      cases b <;> rfl
    exact ofRecord?_eq_some rfl rfl rfl rfl rfl rfl hbool rfl rfl
  | sint i =>
    have hsint : (Record.mk depth (Scalar.sint i).plainFields).sint64? 2 = some (some i) := by
      show some (some (Bytes.Zigzag.decode (UInt64.ofNat (Bytes.Zigzag.encode i).toNat))) = _
      rw [UInt64.ofNat_toNat, Bytes.Zigzag.decode_encode]
    refine Eq.trans ?_ (if_pos (Nat.zero_le depth)).symm
    exact ofRecord?_eq_some rfl hsint rfl rfl rfl rfl rfl rfl rfl
  | uint n =>
    have huint : (Record.mk depth (Scalar.uint n).plainFields).uint64? 3 = some (some n) := by
      show some (some (UInt64.ofNat n.toNat)) = _
      rw [UInt64.ofNat_toNat]
    refine Eq.trans ?_ (if_pos (Nat.zero_le depth)).symm
    exact ofRecord?_eq_some rfl rfl huint rfl rfl rfl rfl rfl rfl
  | double bits =>
    have hdouble : (Record.mk depth (Scalar.double bits).plainFields).double? 6
        = some (some bits) := by
      show some (some (UInt64.ofNat bits.toNat)) = _
      rw [UInt64.ofNat_toNat]
    refine Eq.trans ?_ (if_pos (Nat.zero_le depth)).symm
    exact ofRecord?_eq_some rfl rfl rfl rfl hdouble rfl rfl rfl rfl
  | exact text => exact ofRecord?_octets depth (Text.Utf8.encode text) short
  | bytes b => exact ofRecord?_octets depth b short
  | str s => exact ofRecord?_string depth s short

theorem ofRecord?_fields (depth : Nat) (value : Scalar)
    (short : (encodeFields value.fields).length < 2 ^ 64) :
    ofRecord? ⟨depth, value.fields⟩ =
      if value.nesting ≤ depth then some value.onWire.message else none := by
  rw [Scalar.fields_eq] at short ⊢
  exact ofRecord?_plainFields depth value.onWire short

end ScalarMessage

end DocWire
