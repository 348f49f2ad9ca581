import DocWire.Bytes.Cursor
import DocWire.Protobuf.Varint

/-!
# Fields of a message

A message is a sequence of numbered fields. What a field holds is told by its wire type alone, so
a message is split into fields without knowing which of them are meant.

* `Content`, `Field`   a field and what it holds;
* `encodeFields`       the bytes of a message;
* `decodeFields?`      the fields of a message;
* `encodeFields_append`   a message is the concatenation of its fields.
-/

namespace DocWire.Protobuf

/-- What a field holds. -/
inductive Content
  | varint (n : Nat)
  | fixed64 (n : Nat)
  | bytes (b : List UInt8)
  | fixed32 (n : Nat)
  /-- a group, whose fields are not kept -/
  | group
deriving DecidableEq

structure Field where
  number : Nat
  content : Content
deriving DecidableEq

def Content.wireType : Content → Nat
  | varint _ => 0
  | fixed64 _ => 1
  | bytes _ => 2
  | group => 3
  | fixed32 _ => 5

/-- the bytes of a content; groups are not written -/
def Content.encode : Content → List UInt8
  | varint n => Varint.encode n
  | fixed64 n => Bytes.toLittleEndian 8 n
  | bytes b => Varint.encode b.length ++ b
  | fixed32 n => Bytes.toLittleEndian 4 n
  | group => []

def Field.encode (f : Field) : List UInt8 :=
  Varint.encode (f.number * 8 + f.content.wireType) ++ f.content.encode

def encodeFields (fields : List Field) : List UInt8 := fields.flatMap Field.encode

theorem encodeFields_nil : encodeFields [] = [] := rfl

theorem encodeFields_append (a b : List Field) :
    encodeFields (a ++ b) = encodeFields a ++ encodeFields b := by
  simp [encodeFields, List.flatMap_append]

/-! ### Fields to write -/

def number (k n : Nat) : Field := ⟨k, .varint n⟩

def octets (k : Nat) (b : List UInt8) : Field := ⟨k, .bytes b⟩

/-- a message inside the message -/
def message (k : Nat) (fields : List Field) : Field := octets k (encodeFields fields)

/-- a field that may be absent -/
def optional {α : Type} (f : α → Field) (x : Option α) : List Field := (x.map f).toList

/-! ### Fields to read -/

def takeBytes (n : Nat) (bytes : List UInt8) : Option (List UInt8 × List UInt8) :=
  let taken := bytes.take n
  if taken.length = n then some (taken, bytes.drop n) else none

theorem takeBytes_append (a b : List UInt8) : takeBytes a.length (a ++ b) = some (a, b) := by
  simp [takeBytes]

/-- The number and wire type of the field that is next. Field numbers start at one, and number and
type together fit 32 bits. -/
def decodeKey (bytes : List UInt8) : Option ((Nat × Nat) × List UInt8) := do
  let (key, rest) ← Varint.decode bytes
  if key < 2 ^ 32 ∧ 8 ≤ key then pure ((key / 8, key % 8), rest) else none

def decodeContent (wireType : Nat) (bytes : List UInt8) : Option (Content × List UInt8) :=
  match wireType with
  | 0 => do
    let (n, rest) ← Varint.decode bytes
    pure (.varint n, rest)
  | 1 => do
    let (b, rest) ← takeBytes 8 bytes
    pure (.fixed64 (Bytes.Reader.littleEndian b), rest)
  | 2 => do
    let (n, rest) ← Varint.decode bytes
    let (b, rest) ← takeBytes n rest
    pure (.bytes b, rest)
  | 5 => do
    let (b, rest) ← takeBytes 4 bytes
    pure (.fixed32 (Bytes.Reader.littleEndian b), rest)
  | _ => none

/-- What follows the groups that are open, given by their numbers with the innermost first, within
`bound` fields. Groups nest at most `depth` deep, and each has to be closed by its own number. -/
def afterGroups (depth : Nat) : Nat → List Nat → List UInt8 → Option (List UInt8)
  | _, [], bytes => some bytes
  | 0, _ :: _, _ => none
  | bound + 1, innermost :: outer, bytes => do
    let ((number, wireType), rest) ← decodeKey bytes
    if wireType = 4 then
      if number = innermost then afterGroups depth bound outer rest else none
    else if (innermost :: outer).length < depth then
      if wireType = 3 then afterGroups depth bound (number :: innermost :: outer) rest
      else
        let (_, rest) ← decodeContent wireType rest
        afterGroups depth bound (innermost :: outer) rest
    else none

def decodeField (depth : Nat) (bytes : List UInt8) : Option (Field × List UInt8) := do
  let ((number, wireType), rest) ← decodeKey bytes
  if wireType = 3 then
    if 0 < depth then
      let rest ← afterGroups depth bytes.length [number] rest
      pure (⟨number, .group⟩, rest)
    else none
  else
    let (content, rest) ← decodeContent wireType rest
    pure (⟨number, content⟩, rest)

/-- the fields of a message of at most `bound` bytes -/
def decodeFieldsWithin (depth : Nat) : Nat → List UInt8 → Option (List Field)
  | _, [] => some []
  | 0, _ :: _ => none
  | bound + 1, bytes => do
    let (field, rest) ← decodeField depth bytes
    let fields ← decodeFieldsWithin depth bound rest
    pure (field :: fields)

/-- The fields of a message in which messages and groups nest at most `depth` deep. -/
def decodeFields? (depth : Nat) (bytes : List UInt8) : Option (List Field) :=
  decodeFieldsWithin depth bytes.length bytes

end DocWire.Protobuf
