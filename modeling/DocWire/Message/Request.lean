import DocWire.Frame
import DocWire.Message.Any
import DocWire.Message.Expr

/-!
# What the client sends

* `Find`              a query of a collection or a table, its placeholders numbered;
* `Request`           the messages of the client;
* `Request.toFrame`   their frames.
-/

namespace DocWire

open Protobuf

/-- A query of a collection or a table. -/
structure Find where
  target : String
  schema : Option String
  mode : Mode
  fields : List Projection
  criteria : Option Expr
  /-- the number of rows to return and of rows to leave out before them -/
  limit : Option (UInt64 × Option UInt64)
  order : List Sorting
  grouping : List Expr
  groupingCriteria : Option Expr
  args : List Scalar
  placeholders : Placeholders

namespace Find

def modelNumber : Mode → Nat
  | .document => 1
  | .table => 2

def directionNumber : Direction → Nat
  | .ascending => 1
  | .descending => 2

def toFields (f : Find) : List Field :=
  let tree (k : Nat) (e : Expr) : Field := message k (e.fields f.placeholders)
  [message 2 (textField 1 f.target :: optional (textField 2) f.schema),
    number 3 (modelNumber f.mode)]
  ++ f.fields.map (fun p => message 4 (tree 1 p.source :: optional (textField 2) p.«alias»))
  ++ optional (tree 5) f.criteria
  ++ optional (fun (rows, offset) =>
      message 6 (number 1 rows.toNat :: optional (fun n => number 2 n.toNat) offset)) f.limit
  ++ f.order.map (fun s => message 7 [tree 1 s.expr, number 2 (directionNumber s.direction)])
  ++ f.grouping.map (tree 8)
  ++ optional (tree 9) f.groupingCriteria
  ++ f.args.map fun value => message 11 value.fields

end Find

/-- A message of the client. -/
inductive Request
  | capabilitiesGet
  | capabilitiesSet (values : List (String × AnyValue))
  | authenticateStart (mechanism : String) (data : Option (List UInt8))
  | authenticateContinue (data : List UInt8)
  | sessionReset (keepOpen : Bool)
  | sessionClose
  | connectionClose
  | execute (space : String) (statement : String) (args : List AnyValue)
  | find (query : Find)

namespace Request

/-- a statement in SQL -/
def sql (statement : String) (args : List AnyValue) : Request := execute "sql" statement args

def tag : Request → UInt8
  | capabilitiesGet => 1
  | capabilitiesSet _ => 2
  | connectionClose => 3
  | authenticateStart _ _ => 4
  | authenticateContinue _ => 5
  | sessionReset _ => 6
  | sessionClose => 7
  | execute _ _ _ => 12
  | find _ => 17

def fields : Request → List Field
  | capabilitiesGet | sessionClose | connectionClose => []
  | capabilitiesSet values =>
    [message 1 (values.map fun (name, value) =>
      message 1 [textField 1 name, message 2 value.fields])]
  | authenticateStart mechanism data => textField 1 mechanism :: optional (octets 2) data
  | authenticateContinue data => [octets 1 data]
  | sessionReset keepOpen => [number 1 (if keepOpen then 1 else 0)]
  | execute space statement args =>
    textField 1 statement :: args.map (fun value => message 2 value.fields) ++ [textField 3 space]
  | find query => query.toFields

def toFrame (r : Request) : Frame := ⟨r.tag, encodeFields r.fields⟩

def encode (r : Request) : List UInt8 := r.toFrame.encode

end Request

end DocWire
