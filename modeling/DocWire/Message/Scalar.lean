import DocWire.Error
import DocWire.Protobuf.Record
import DocWire.Scalar
import DocWire.Text.Letters

/-!
# Scalars on the wire

* `Scalar.fields`         the message of a scalar;
* `ScalarMessage`         a scalar message as it is received, its type and its value still apart;
* `ScalarMessage.toScalar`   the scalar, if there is a value of the type.
-/

namespace DocWire

open Protobuf

/-- The number that a text denotes, a sign before its digits allowed. -/
def integerOfText? (text : String) : Option Int :=
  let ofDigits (cs : List Char) : Option Int :=
    if !cs.isEmpty && cs.all Text.isDigit then some (Text.digitsValue cs) else none
  match text.toList with
  | '-' :: cs => (ofDigits cs).map (- ·)
  | '+' :: cs => ofDigits cs
  | cs => ofDigits cs

def isSignedText (text : String) : Bool := text.toList.head? == some '-'

/-- A number given as text, as an integer of 64 bits if it is one. -/
def Scalar.ofExact (text : String) : Scalar :=
  match integerOfText? text with
  | some i =>
    if !isSignedText text && decide (i < 2 ^ 64) then .uint (UInt64.ofNat i.toNat)
    else if isSignedText text && decide (-(2 ^ 63) ≤ i) then .sint (Int64.ofInt i)
    else .bytes (Text.Utf8.encode text)
  | none => .bytes (Text.Utf8.encode text)

/-- The fields of the message of a scalar. -/
def Scalar.plainFields : Scalar → List Field
  | null => [number 1 3]
  | bool b => [number 1 7, number 8 (if b then 1 else 0)]
  | sint i => [number 1 1, number 2 (Bytes.Zigzag.encode i).toNat]
  | uint n => [number 1 2, number 3 n.toNat]
  | double bits => [number 1 5, ⟨6, .fixed64 bits.toNat⟩]
  | exact text => [number 1 4, message 5 [octets 1 (Text.Utf8.encode text)]]
  | str s => [number 1 8, message 9 [octets 1 (Text.Utf8.encode s)]]
  | bytes b => [number 1 4, message 5 [octets 1 b]]

/-- The fields of the message of a scalar. A number given as text is written as an integer where it
is one, and as bytes otherwise. -/
def Scalar.fields : Scalar → List Field
  | exact text => (Scalar.ofExact text).plainFields
  | value => value.plainFields

def Scalar.encode (value : Scalar) : List UInt8 := encodeFields value.fields

/-- A scalar message as it is received. -/
structure ScalarMessage where
  type : Int32
  sint : Option Int64
  uint : Option UInt64
  octets : Option (List UInt8)
  double : Option UInt64
  float : Option UInt32
  bool : Option Bool
  string : Option (List UInt8)
deriving DecidableEq

namespace ScalarMessage

/-- a byte string with a companion of the given kind beside it -/
def withCompanion? {α : Type} (companion : Record → Option α) (r : Record) (k : Nat) :
    Option (Option (List UInt8)) := do
  match (← r.record? k) with
  | none => pure none
  | some inner =>
    let value ← inner.bytes? 1
    let _ ← companion inner
    inner.onlyKnown? [1, 2]
    pure (some (value.getD []))

/-- The scalar message of a record. A missing type is the first one. -/
def ofRecord? (r : Record) : Option ScalarMessage := do
  let type ← r.enum? 1
  let sint ← r.sint64? 2
  let uint ← r.uint64? 3
  let octets ← withCompanion? (·.uint32? 2) r 5
  let double ← r.double? 6
  let float ← r.float? 7
  let bool ← r.bool? 8
  let string ← withCompanion? (·.uint64? 2) r 9
  r.onlyKnown? [1, 2, 3, 5, 6, 7, 8, 9]
  pure ⟨type.getD 1, sint, uint, octets, double, float, bool, string⟩

/-- a value of a type, which has to be there -/
def required {α : Type} (type : String) (x : Option α) : Except ConnectionError α :=
  match x with
  | some a => .ok a
  | none => .error (.undecodable (.missingValue type))

def toScalar (m : ScalarMessage) : Except ConnectionError Scalar :=
  match m.type.toInt with
  | 1 => (required "VSint" m.sint).map .sint
  | 2 => (required "VUint" m.uint).map .uint
  | 3 => .ok .null
  | 4 => (required "VOctets" m.octets).map .bytes
  | 5 => (required "VDouble" m.double).map .double
  | 6 => (required "VFloat" m.float).map fun bits =>
    .double (UInt64.ofNat (Number.binary32.widen Number.binary64 bits.toNat))
  | 7 => (required "VBool" m.bool).map .bool
  | 8 => (required "VString" m.string).map fun b => .str (Text.Utf8.decodeLossy b)
  | type => .error (.undecodable (.scalarType type))

end ScalarMessage

/-- what a message cannot be read at all is worth -/
def readable {α : Type} (x : Option α) : Except ConnectionError α :=
  match x with
  | some a => .ok a
  | none => .error (.undecodable .message)

def Scalar.decode (bytes : List UInt8) : Except ConnectionError Scalar := do
  let m ← readable ((Record.ofBytes? bytes).bind ScalarMessage.ofRecord?)
  m.toScalar

end DocWire
