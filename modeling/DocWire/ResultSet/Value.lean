import DocWire.Bytes.Cursor
import DocWire.Json.Parse
import DocWire.ResultSet.Column

/-!
# Column values

A field of a row is a byte string whose layout follows from its column. An empty field is null, and
for that reason strings carry one byte more than they have.

* `Value`              the values;
* `Value.decode`       the value of a field;
* `Value.text`         the wording;
* `decimalText`        packed decimal digits, written exactly.
-/

namespace DocWire

open Bytes (Cursor OutOfBounds Reader)

/-- A time of day or a span of time. -/
structure Time where
  negative : Bool
  hours : UInt32
  minutes : UInt32
  seconds : UInt32
  micros : UInt32
deriving DecidableEq

/-- A date, and a time of day if the column carries one. -/
structure DateTime where
  year : UInt32
  month : UInt32
  day : UInt32
  hour : UInt32
  minute : UInt32
  second : UInt32
  micros : UInt32
  hasTime : Bool
deriving DecidableEq

/-- A value of a column. Floating point numbers are their bits, decimals their digits. -/
inductive Value
  | null
  | int (i : Int64)
  | uint (n : UInt64)
  | double (bits : UInt64)
  | float (bits : UInt32)
  | text (s : String)
  | bytes (b : List UInt8)
  | json (document : Json)
  | decimal (text : String)
  | time (t : Time)
  | datetime (t : DateTime)
  | set (items : List String)
  | enum (s : String)
  | bit (n : UInt64)

def padded (width n : Nat) : String :=
  let digits := Number.digitsOf n
  String.ofList (List.replicate (width - digits.length) '0' ++ digits)

def microsText (micros : UInt32) : String :=
  if micros = 0 then "" else "." ++ padded 6 micros.toNat

def clockText (hours minutes seconds micros : UInt32) : String :=
  padded 2 hours.toNat ++ ":" ++ padded 2 minutes.toNat ++ ":" ++ padded 2 seconds.toNat
    ++ microsText micros

def Time.text (t : Time) : String :=
  (if t.negative then "-" else "") ++ clockText t.hours t.minutes t.seconds t.micros

def DateTime.text (t : DateTime) : String :=
  padded 4 t.year.toNat ++ "-" ++ padded 2 t.month.toNat ++ "-" ++ padded 2 t.day.toNat
    ++ if t.hasTime then " " ++ clockText t.hour t.minute t.second t.micros else ""

namespace Value

def isNull : Value → Bool
  | null => true
  | _ => false

def toText : Value → String
  | null => "NULL"
  | int i => toString i.toInt
  | uint n | bit n => toString n.toNat
  | double bits => Number.binary64.text bits.toNat
  | float bits => Number.binary32.text bits.toNat
  | text s | enum s | decimal s => s
  | bytes b => "0x" ++ String.ofList (Text.Hex.encode b)
  | json document => document.text
  | time t => t.text
  | datetime t => t.text
  | set items => String.intercalate "," items

end Value

/-- Reading a field from front to back. -/
abbrev FieldReader (α : Type) := StateT Cursor (Except ConnectionError) α

namespace FieldReader

/-- a read of the buffer as a part of reading a field -/
def of {α : Type} (r : Reader α) : FieldReader α := fun c =>
  match (ExceptT.run r).run c with
  | (.ok a, c) => .ok (a, c)
  | (.error e, _) => .error (.outOfBounds e)

def refuse {α : Type} (what : Undecodable) : FieldReader α := fun _ =>
  .error (.undecodable what)

def atEnd : FieldReader Bool := do
  pure ((← get).remaining == 0)

def component : FieldReader UInt32 := do
  let n ← of Reader.varint
  if n.toNat < 2 ^ 32 then pure n.toUInt32 else refuse (.temporal n.toNat)

/-- a component that may be left out at the end, and is zero then -/
def optionalComponent : FieldReader UInt32 := do
  if (← atEnd) then pure 0 else component

/-- A sign byte and up to four components. -/
def time : FieldReader Time := do
  let sign ← of Reader.byte
  let hours ← optionalComponent
  let minutes ← optionalComponent
  let seconds ← optionalComponent
  let micros ← optionalComponent
  pure ⟨sign == 1, hours, minutes, seconds, micros⟩

/-- A date, and up to four components of a time of day. -/
def datetime : FieldReader DateTime := do
  let year ← component
  let month ← component
  let day ← component
  let hasTime := !(← atEnd)
  let hour ← optionalComponent
  let minute ← optionalComponent
  let second ← optionalComponent
  let micros ← optionalComponent
  pure ⟨year, month, day, hour, minute, second, micros, hasTime⟩

/-- up to `bound` items, each behind its length -/
def items : Nat → FieldReader (List String)
  | 0 => pure []
  | bound + 1 => do
    if (← atEnd) then pure []
    else
      let length ← of Reader.varint
      let item ← of (Reader.slice length.toNat)
      let rest ← items bound
      pure (Text.Utf8.decodeLossy item :: rest)

/-- The items of a set. A single byte one is the empty set, a single byte zero the set of the empty
string. -/
def set : FieldReader (List String) := do
  let length := (← get).remaining
  if length = 1 then
    let b ← of Reader.byte
    if b = 1 then pure []
    else if b = 0 then pure [""]
    else refuse (.set b)
  else items length

end FieldReader

/-- the half bytes of a byte string, high halves first -/
def nibbles (bytes : List UInt8) : List Nat :=
  bytes.flatMap fun b => [b.toNat / 16, b.toNat % 16]

/-- The digits up to the sign, and whether the sign is minus. -/
def signedDigits : List Nat → Except Undecodable (List Char × Bool)
  | [] => .error .unsigned
  | n :: rest =>
    if n < 10 then
      (signedDigits rest).map fun (digits, negative) =>
        (Char.ofNat ('0'.toNat + n) :: digits, negative)
    else if n = 12 then .ok ([], false)
    else if n = 13 then .ok ([], true)
    else .error (.nibble n)

/-- A row of digits, the last `scale` of them behind a point, without superfluous zeros before
it. -/
def decimalText (negative : Bool) (digits : List Char) (scale : Nat) : List Char :=
  let digits := List.replicate (scale + 1 - digits.length) '0' ++ digits
  let whole := (digits.take (digits.length - scale)).dropWhile (· == '0')
  let whole := if whole.isEmpty then ['0'] else whole
  let fraction := digits.drop (digits.length - scale)
  (if negative then ['-'] else []) ++ whole ++ (if scale = 0 then [] else '.' :: fraction)

/-- A scale byte, and packed digits that a sign ends. -/
def FieldReader.decimal : FieldReader String := do
  let scale ← of Reader.byte
  let packed ← of Reader.rest
  match signedDigits (nibbles packed) with
  | .ok (digits, negative) =>
    pure (String.ofList (decimalText negative digits scale.toNat))
  | .error what => refuse what

namespace Value

/-- a string field without the byte that tells it from null -/
def withoutPad (field : List UInt8) : List UInt8 := field.dropLast

/-- The value of a string field: a JSON document, a text, or bytes where the collation or the bytes
themselves do not allow a text. -/
def ofBytes (column : Column) (field : List UInt8) : Except ConnectionError Value :=
  let content := withoutPad field
  if column.contentType = Column.jsonContent then
    match (Text.Utf8.decode? content).bind Json.parse? with
    | some document => .ok (json document)
    | none => .error (.undecodable (.json column.name))
  else if column.collation = Column.binaryCollation then .ok (bytes content)
  else
    match Text.Utf8.decode? content with
    | some s => .ok (text s)
    | none => .ok (bytes content)

def decode (column : Column) (field : List UInt8) : Except ConnectionError Value :=
  if field.isEmpty then .ok null
  else
    let read {α : Type} (make : α → Value) (r : FieldReader α) : Except ConnectionError Value :=
      (StateT.run r (Cursor.ofList field)).map fun (x, _) => make x
    match column.type with
    | .sint => read int (.of Reader.zigzag)
    | .uint => read uint (.of Reader.varint)
    | .bit => read bit (.of Reader.varint)
    | .double => read double (.of Reader.word64)
    | .float => read float (.of Reader.word32)
    | .bytes => ofBytes column field
    | .enum => .ok (enum (Text.Utf8.decodeLossy (withoutPad field)))
    | .set => read set FieldReader.set
    | .time => read time FieldReader.time
    | .datetime => read datetime FieldReader.datetime
    | .decimal => read decimal FieldReader.decimal

theorem decode_nil (column : Column) : decode column [] = .ok null := rfl

end Value

end DocWire
