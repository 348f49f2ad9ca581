import DocWire.Scalar

/-!
# Expressions

The trees that filters, projections, orderings and groupings are compiled to.

* `PathItem`, `ColumnRef`   what a field or a column refers to;
* `Expr`                    the trees;
* `Expr.text`               their wording: every operator as a call of its name;
* `Sorting`, `Projection`   an expression with a direction, and with an alias.
-/

namespace DocWire

/-- One step of a path into a document. -/
inductive PathItem
  | member (name : String)
  | anyMember
  | index (n : UInt32)
  | anyIndex
  /-- any number of steps -/
  | descendants
deriving DecidableEq

def PathItem.text : PathItem → String
  | member name => "." ++ name
  | anyMember => ".*"
  | index n => "[" ++ toString n.toNat ++ "]"
  | anyIndex => "[*]"
  | descendants => "**"

def pathText (path : List PathItem) : String :=
  "$" ++ String.join (path.map PathItem.text)

theorem pathText_nil : pathText [] = "$" := rfl

/-- A table column, or a place in the document that it holds. -/
structure ColumnRef where
  schema : Option String := none
  table : Option String := none
  name : String
  path : List PathItem := []
deriving DecidableEq

def ColumnRef.text (c : ColumnRef) : String :=
  let qualifier (part : Option String) : String := (part.map (· ++ ".")).getD ""
  let drill := if c.path.isEmpty then "" else "->'" ++ pathText c.path ++ "'"
  qualifier c.schema ++ qualifier c.table ++ c.name ++ drill

/-- An expression tree. -/
inductive Expr
  | literal (value : Scalar)
  /-- a place in the current document -/
  | field (path : List PathItem)
  | column (ref : ColumnRef)
  /-- a value that is bound by name -/
  | named (name : String)
  /-- a value that is bound by its place, from zero -/
  | positional (index : Nat)
  | call (schema : Option String) (name : String) (args : List Expr)
  | op (name : String) (args : List Expr)
  | unary (name : String) (arg : Expr)
  | object (fields : List (String × Expr))
  | array (items : List Expr)
deriving Inhabited

namespace Expr

mutual

def text : Expr → String
  | literal value => value.text
  | field path => pathText path
  | column ref => ref.text
  | named name => ":" ++ name
  | positional _ => "?"
  | call schema name args =>
    (schema.map (· ++ ".")).getD "" ++ name ++ "(" ++ textList args ++ ")"
  | op name args => name ++ "(" ++ textList args ++ ")"
  | unary name arg => name ++ "(" ++ text arg ++ ")"
  | object fields => "\x7b" ++ textFields fields ++ "\x7d"
  | array items => "[" ++ textList items ++ "]"

def textList : List Expr → String
  | [] => ""
  | [e] => text e
  | e :: rest => text e ++ ", " ++ textList rest

def textFields : List (String × Expr) → String
  | [] => ""
  | [(key, e)] => Text.quote key ++ ": " ++ text e
  | (key, e) :: rest => Text.quote key ++ ": " ++ text e ++ ", " ++ textFields rest

end

/-- a column by its bare name -/
def bareColumn (name : String) : Expr := column { name }

end Expr

/-- The order in which a sorting lists its rows. -/
inductive Direction
  | ascending
  | descending
deriving DecidableEq

/-- An expression to sort by. -/
structure Sorting where
  expr : Expr
  direction : Direction

/-- An expression to return, under an alias if one is given. -/
structure Projection where
  source : Expr
  «alias» : Option String

/-- What bare identifiers stand for: fields of a document, or columns of a table. -/
inductive Mode
  | document
  | table
deriving DecidableEq

end DocWire
