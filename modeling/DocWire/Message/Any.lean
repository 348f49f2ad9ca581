import DocWire.AnyValue
import DocWire.Message.Scalar

/-!
# Compound values on the wire

* `AnyValue.fields`       the message of a value;
* `AnyMessage`            a message as it is received;
* `AnyMessage.toAny`      the value, if every part is there.
-/

namespace DocWire

open Protobuf

namespace AnyValue

mutual

def fields : AnyValue → List Field
  | scalar value => [number 1 1, message 2 value.fields]
  | object members => [number 1 2, message 3 (memberFields members)]
  | array items => [number 1 3, message 4 (itemFields items)]

def memberFields : List (String × AnyValue) → List Field
  | [] => []
  | (key, value) :: rest =>
    message 1 [octets 1 (Text.Utf8.encode key), message 2 (fields value)] :: memberFields rest

def itemFields : List AnyValue → List Field
  | [] => []
  | item :: rest => message 1 (fields item) :: itemFields rest

end

def encode (value : AnyValue) : List UInt8 := encodeFields value.fields

end AnyValue

inductive AnyMessage
  | mk (type : Int32) (scalar : Option ScalarMessage)
    (object : Option (List (String × Option AnyMessage))) (array : Option (List AnyMessage))

namespace AnyMessage

/-- reads the message inside that a field holds, one level further down -/
def inside? {α : Type} (read : List Field → Option α) (r : Record) (k : Nat) :
    Option (Option α) := do
  match (← r.record? k) with
  | none => pure none
  | some inner => (read inner.fields).map some

/-- reads the messages inside that a field holds, one level further down -/
def allInside? {α : Type} (read : List Field → Option α) (r : Record) (k : Nat) :
    Option (List α) := do
  (← r.records? k).mapM fun inner => read inner.fields

/-- a message that has no room left for messages inside it -/
def leaf? (known : List Nat) (inside : List Nat) (fields : List Field) : Option Record := do
  let r : Record := ⟨0, fields⟩
  r.onlyKnown? known
  if inside.all (fun k => (r.contents k).isEmpty) then pure r else none

mutual

/-- The message of fields in which messages nest at most `depth` deep. A missing type is the first
one. -/
def any? : Nat → List Field → Option AnyMessage
  | 0, fields => do
    let r ← leaf? [1, 2, 3, 4] [2, 3, 4] fields
    pure (.mk ((← r.enum? 1).getD 1) none none none)
  | depth + 1, fields => do
    let r : Record := ⟨depth + 1, fields⟩
    let type ← r.enum? 1
    let scalar ← (do
      match (← r.record? 2) with
      | none => pure none
      | some inner => (ScalarMessage.ofRecord? inner).map some)
    let object ← inside? (object? depth) r 3
    let array ← inside? (array? depth) r 4
    pure (.mk (type.getD 1) scalar object array)

def object? : Nat → List Field → Option (List (String × Option AnyMessage))
  | 0, fields => do
    let _ ← leaf? [1] [1] fields
    pure []
  | depth + 1, fields => allInside? (member? depth) ⟨depth + 1, fields⟩ 1

def member? : Nat → List Field → Option (String × Option AnyMessage)
  | 0, fields => do
    let r ← leaf? [1, 2] [2] fields
    pure ((← r.string? 1).getD "", none)
  | depth + 1, fields => do
    let r : Record := ⟨depth + 1, fields⟩
    let key ← r.string? 1
    let value ← inside? (any? depth) r 2
    pure (key.getD "", value)

def array? : Nat → List Field → Option (List AnyMessage)
  | 0, fields => do
    let _ ← leaf? [1] [1] fields
    pure []
  | depth + 1, fields => allInside? (any? depth) ⟨depth + 1, fields⟩ 1

end

def ofRecord? (r : Record) : Option AnyMessage := any? r.depth r.fields

mutual

/-- The value of a message. A missing object or array is an empty one. -/
def toAny : AnyMessage → Except ConnectionError AnyValue
  | .mk type scalar object array =>
    match type.toInt with
    | 1 =>
      match scalar with
      | some m => m.toScalar.map .scalar
      | none => .error (.undecodable .missingScalar)
    | 2 =>
      match object with
      | some members => (toMembers members).map .object
      | none => .ok (.object [])
    | 3 =>
      match array with
      | some items => (toItems items).map .array
      | none => .ok (.array [])
    | type => .error (.undecodable (.anyType type))

def toMembers :
    List (String × Option AnyMessage) → Except ConnectionError (List (String × AnyValue))
  | [] => .ok []
  | (key, none) :: _ => .error (.undecodable (.missingField key))
  | (key, some m) :: rest => do
    let value ← toAny m
    let members ← toMembers rest
    .ok ((key, value) :: members)

def toItems : List AnyMessage → Except ConnectionError (List AnyValue)
  | [] => .ok []
  | m :: rest => do
    let item ← toAny m
    let items ← toItems rest
    .ok (item :: items)

end

end AnyMessage

def AnyValue.decode (bytes : List UInt8) : Except ConnectionError AnyValue := do
  let m ← readable ((Record.ofBytes? bytes).bind AnyMessage.ofRecord?)
  m.toAny

end DocWire
