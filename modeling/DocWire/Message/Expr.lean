import DocWire.Expr.Placeholders
import DocWire.Message.Scalar

/-!
# Expressions on the wire

* `Expr.fields`   the message of a tree, its placeholders numbered for the request;
* `Expr.encode`   its bytes.
-/

namespace DocWire

open Protobuf

def textField (k : Nat) (s : String) : Field := octets k (Text.Utf8.encode s)

def PathItem.fields : PathItem → List Field
  | member name => [number 1 1, textField 2 name]
  | anyMember => [number 1 2]
  | index n => [number 1 3, number 3 n.toNat]
  | anyIndex => [number 1 4]
  | descendants => [number 1 5]

def pathFields (path : List PathItem) : List Field :=
  path.map fun item => message 1 item.fields

def ColumnRef.fields (c : ColumnRef) : List Field :=
  pathFields c.path ++ [textField 2 c.name] ++ optional (textField 3) c.table
    ++ optional (textField 4) c.schema

def placeholderFields (position : Option UInt32) : List Field :=
  number 1 6 :: optional (fun n => number 7 n.toNat) position

namespace Expr

mutual

/-- The fields of the message of a tree. Fields and columns share a message, fields having no
name; so do operators of any number of operands, and placeholders of either kind. -/
def fields (p : Placeholders) : Expr → List Field
  | literal value => [number 1 2, message 4 value.fields]
  | field path => [number 1 1, message 2 (pathFields path)]
  | column ref => [number 1 1, message 2 ref.fields]
  | named name => placeholderFields (p.position? (named name))
  | positional index => placeholderFields (p.position? (positional index))
  | call schema name args =>
    [number 1 4, message 5
      (message 1 (textField 1 name :: optional (textField 2) schema) :: argumentFields p 2 args)]
  | op name args => [number 1 5, message 6 (textField 1 name :: argumentFields p 2 args)]
  | unary name arg => [number 1 5, message 6 [textField 1 name, message 2 (fields p arg)]]
  | object members => [number 1 7, message 8 (memberFields p members)]
  | array items => [number 1 8, message 9 (argumentFields p 1 items)]

/-- the fields of trees in a row -/
def argumentFields (p : Placeholders) (k : Nat) : List Expr → List Field
  | [] => []
  | e :: rest => message k (fields p e) :: argumentFields p k rest

def memberFields (p : Placeholders) : List (String × Expr) → List Field
  | [] => []
  | (key, e) :: rest => message 1 [textField 1 key, message 2 (fields p e)] :: memberFields p rest

end

def encode (p : Placeholders) (e : Expr) : List UInt8 := encodeFields (e.fields p)

end Expr

end DocWire
