import DocWire.Message.Scalar

/-!
# Columns

What the server announces of a column before its rows.

* `ColumnType`, `Column`   the description;
* `Column.ofBytes`         its message.
-/

namespace DocWire

open Protobuf

/-- The layouts of column values. -/
inductive ColumnType
  | sint
  | uint
  | double
  | float
  | bytes
  | time
  | datetime
  | set
  | enum
  | bit
  | decimal
deriving DecidableEq, Repr

def ColumnType.ofNumber? : Int → Option ColumnType
  | 1 => some sint
  | 2 => some uint
  | 5 => some double
  | 6 => some float
  | 7 => some bytes
  | 10 => some time
  | 12 => some datetime
  | 15 => some set
  | 16 => some enum
  | 17 => some bit
  | 18 => some decimal
  | _ => none

structure Column where
  type : ColumnType := .bytes
  /-- the label of the query, an alias if there is one -/
  name : String := ""
  originalName : String := ""
  table : String := ""
  originalTable : String := ""
  schema : String := ""
  catalog : String := ""
  collation : UInt64 := 0
  fractionalDigits : UInt32 := 0
  length : UInt32 := 0
  flags : UInt32 := 0
  contentType : UInt32 := 0
deriving DecidableEq

namespace Column

def jsonContent : UInt32 := 2

/-- the collation of byte strings that are no text -/
def binaryCollation : UInt64 := 63

def isJson (c : Column) : Bool := c.type == .bytes && c.contentType == jsonContent

/-- The number of the layout and the rest of the description. -/
def ofRecord? (r : Record) : Option (Int32 × Column) := do
  let type ← r.enum? 1
  let name ← r.bytes? 2
  let originalName ← r.bytes? 3
  let table ← r.bytes? 4
  let originalTable ← r.bytes? 5
  let schema ← r.bytes? 6
  let catalog ← r.bytes? 7
  let collation ← r.uint64? 8
  let fractionalDigits ← r.uint32? 9
  let length ← r.uint32? 10
  let flags ← r.uint32? 11
  let contentType ← r.uint32? 12
  let text (b : Option (List UInt8)) : String := (b.map Text.Utf8.decodeLossy).getD ""
  pure (type.getD 1,
    { name := text name, originalName := text originalName, table := text table,
      originalTable := text originalTable, schema := text schema, catalog := text catalog,
      collation := collation.getD 0, fractionalDigits := fractionalDigits.getD 0,
      length := length.getD 0, flags := flags.getD 0, contentType := contentType.getD 0 })

def ofBytes (bytes : List UInt8) : Except ConnectionError Column := do
  let (type, column) ← readable ((Record.ofBytes? bytes).bind ofRecord?)
  match ColumnType.ofNumber? type.toInt with
  | some type => .ok { column with type }
  | none => .error (.undecodable (.columnType type.toInt))

end Column

end DocWire
