import DocWire.Bytes.Zigzag
import DocWire.Protobuf.Field
import DocWire.Text.Utf8

/-!
# Records

A record is a message that has been split into fields, with the depth to which messages may still
nest in it. Its known fields are asked for by number: of a field that occurs more than once the
last occurrence counts, and a message that occurs more than once is the concatenation of its
occurrences. A known field of another wire type makes the record unreadable.

* `Record.ofBytes?`                         the record of a byte string;
* `uint64?`, `string?`, …                   optional fields;
* `record?`, `records?`                     messages inside, merged and in a row;
* `Record.onlyKnown?`                       at the greatest depth nothing unknown is passed over.
-/

namespace DocWire.Protobuf

/-- A message in its fields. -/
structure Record where
  depth : Nat
  fields : List Field
deriving DecidableEq

/-- how deep messages nest in a whole message -/
def maxDepth : Nat := 100

namespace Record

def ofBytes? (bytes : List UInt8) : Option Record :=
  (decodeFields? maxDepth bytes).map fun fields => ⟨maxDepth, fields⟩

def contents (r : Record) (k : Nat) : List Content :=
  r.fields.filterMap fun f => if f.number = k then some f.content else none

/-- all occurrences of a field, if each can be read -/
def all? {α : Type} (r : Record) (pick : Content → Option α) (k : Nat) : Option (List α) :=
  (r.contents k).mapM pick

/-- the last occurrence of a field, if each can be read -/
def last? {α : Type} (r : Record) (pick : Content → Option α) (k : Nat) : Option (Option α) :=
  (r.all? pick k).map List.getLast?

def pickVarint : Content → Option Nat
  | .varint n => some n
  | _ => none

def pickBytes : Content → Option (List UInt8)
  | .bytes b => some b
  | _ => none

def pickString : Content → Option String
  | .bytes b => Text.Utf8.decode? b
  | _ => none

def pickDouble : Content → Option UInt64
  | .fixed64 n => some (UInt64.ofNat n)
  | _ => none

def pickFloat : Content → Option UInt32
  | .fixed32 n => some (UInt32.ofNat n)
  | _ => none

def uint64? (r : Record) (k : Nat) : Option (Option UInt64) :=
  r.last? (fun c => (pickVarint c).map UInt64.ofNat) k

/-- an unsigned number of 32 bits, the higher ones dropped -/
def uint32? (r : Record) (k : Nat) : Option (Option UInt32) :=
  r.last? (fun c => (pickVarint c).map UInt32.ofNat) k

def enum? (r : Record) (k : Nat) : Option (Option Int32) :=
  r.last? (fun c => (pickVarint c).map fun n => Int32.ofInt n) k

def sint64? (r : Record) (k : Nat) : Option (Option Int64) :=
  r.last? (fun c => (pickVarint c).map fun n => Bytes.Zigzag.decode (UInt64.ofNat n)) k

def bool? (r : Record) (k : Nat) : Option (Option Bool) :=
  r.last? (fun c => (pickVarint c).map fun n => n != 0) k

def bytes? (r : Record) (k : Nat) : Option (Option (List UInt8)) := r.last? pickBytes k

def string? (r : Record) (k : Nat) : Option (Option String) := r.last? pickString k

def double? (r : Record) (k : Nat) : Option (Option UInt64) := r.last? pickDouble k

def float? (r : Record) (k : Nat) : Option (Option UInt32) := r.last? pickFloat k

/-- a message inside, one level further down -/
def pickRecord (r : Record) : Content → Option Record
  | .bytes b =>
    match r.depth with
    | 0 => none
    | depth + 1 => (decodeFields? depth b).map fun fields => ⟨depth, fields⟩
  | _ => none

def records? (r : Record) (k : Nat) : Option (List Record) := r.all? r.pickRecord k

/-- One message, made up of all its occurrences. -/
def record? (r : Record) (k : Nat) : Option (Option Record) := do
  match (← r.records? k) with
  | [] => pure none
  | first :: more => pure (some ⟨first.depth, first.fields ++ more.flatMap Record.fields⟩)

/-- Fails if a field has to be passed over where no further nesting is left. -/
def onlyKnown? (r : Record) (known : List Nat) : Option Unit :=
  if r.depth = 0 ∧ r.fields.any (fun f => !known.contains f.number) then none else some ()

end Record

end DocWire.Protobuf
