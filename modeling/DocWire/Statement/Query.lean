import DocWire.Expr.Compile
import DocWire.Expr.Placeholders
import DocWire.Statement.Basic

/-!
# Queries

A query of a collection or a table is put together clause by clause. Its positional placeholders
are numbered over all clauses, in the order filter, fields, sorting, grouping, group filter, and
the values that are given for them are used up in that order.

* `Query`             the clauses and the values given so far;
* `Query.setFilter`, `Query.addFields`, `Query.bind` and so on   one step each;
* `Query.build`       the request, if every placeholder has a value and every name is used.
-/

namespace DocWire

/-- A query that is being put together. -/
structure Query where
  target : String
  schema : Option String := none
  mode : Mode := .document
  filter : Option Expr := none
  fields : List Projection := []
  order : List Sorting := []
  grouping : List Expr := []
  /-- the filter of the groups -/
  having : Option Expr := none
  limit : Option UInt64 := none
  offset : Option UInt64 := none
  /-- the values of the positional placeholders -/
  values : List Scalar := []
  /-- the values of the named placeholders -/
  bindings : List (String × Scalar) := []

namespace Query

/-! ## Clauses -/

def compiled {α : Type} : Except SyntaxError α → Except StatementError α
  | .ok x => .ok x
  | .error e => .error (.expression e)

def setFilter (q : Query) (text : String) : Except StatementError Query := do
  let e ← compiled (compileExpr text q.mode)
  .ok { q with filter := some e }

def addFields (q : Query) (texts : List String) : Except StatementError Query := do
  let fields ← compiled (texts.mapM (compileProjection · q.mode))
  .ok { q with fields := q.fields ++ fields }

def addOrder (q : Query) (texts : List String) : Except StatementError Query := do
  let order ← compiled (texts.mapM (compileSorting · q.mode))
  .ok { q with order := q.order ++ order }

def addGrouping (q : Query) (texts : List String) : Except StatementError Query := do
  let grouping ← compiled (texts.mapM (compileExpr · q.mode))
  .ok { q with grouping := q.grouping ++ grouping }

/-- Sets the filter of the groups. -/
def setHaving (q : Query) (text : String) : Except StatementError Query := do
  let e ← compiled (compileExpr text q.mode)
  .ok { q with having := some e }

/-! ## Values -/

def addValue (q : Query) (value : Scalar) : Query := { q with values := q.values ++ [value] }

/-- The bindings with a name bound to a value, in the place of its old value if it has one. -/
def rebind (name : String) (value : Scalar) : List (String × Scalar) → List (String × Scalar)
  | [] => [(name, value)]
  | (n, v) :: rest =>
    if n = name then (n, value) :: rest else (n, v) :: rebind name value rest

/-- Gives the value of a named placeholder. The last value given counts. -/
def bind (q : Query) (name : String) (value : Scalar) : Query :=
  { q with bindings := rebind name value q.bindings }

/-! ## The request -/

/-- The expressions of all clauses, in the order in which placeholders are numbered. -/
def exprs (q : Query) : List Expr :=
  q.filter.toList ++ q.fields.map Projection.source ++ q.order.map Sorting.expr ++ q.grouping
    ++ q.having.toList

/-- The values of the positional placeholders from `index` on, `count` of them. -/
def positionalArgs (index : Nat) : Nat → List Scalar → Except StatementError (List Scalar)
  | 0, _ => .ok []
  | _ + 1, [] => .error (.missingPositional index)
  | count + 1, value :: rest => do
    let args ← positionalArgs (index + 1) count rest
    .ok (value :: args)

def namedArg (q : Query) (name : String) : Except StatementError Scalar :=
  match q.bindings.lookup name with
  | some value => .ok value
  | none => .error (.missingNamed name)

/-- The arguments for placeholders: the positional ones, then the named ones. -/
def args (q : Query) (p : Placeholders) : Except StatementError (List Scalar) := do
  let front ← positionalArgs 0 p.positional q.values
  let back ← p.names.mapM q.namedArg
  .ok (front ++ back)

/-- How many rows to return and how many to leave out before them. To leave rows out is to return
all the others. -/
def window (q : Query) : Option (UInt64 × Option UInt64) :=
  match q.limit, q.offset with
  | none, none => none
  | limit, offset => some (limit.getD 0xffffffffffffffff, offset)

/-- The request of a query. Each expression is replaced by its renumbered form. -/
def toFind (q : Query) (exprs : List Expr) (p : Placeholders) (args : List Scalar) : Find :=
  let (filter, exprs) := exprs.splitAt q.filter.toList.length
  let (fields, exprs) := exprs.splitAt q.fields.length
  let (order, exprs) := exprs.splitAt q.order.length
  let (grouping, having) := exprs.splitAt q.grouping.length
  { target := q.target, schema := q.schema, mode := q.mode,
    fields := List.zipWith (fun f source => { f with source }) q.fields fields,
    criteria := filter.head?, limit := q.window,
    order := List.zipWith (fun s expr => { s with expr }) q.order order, grouping,
    groupingCriteria := having.head?, args, placeholders := p }

/-- The request of a query: every name that is bound has to be used, and every placeholder needs a
value. -/
def build (q : Query) : Except StatementError Request :=
  let (exprs, p) := Placeholders.assign q.exprs
  match q.bindings.find? fun (name, _) => !p.names.contains name with
  | some (name, _) => .error (.unusedName name)
  | none => (q.args p).map fun args => .find (q.toFind exprs p args)

theorem rebind_nil (name : String) (value : Scalar) : rebind name value [] = [(name, value)] := rfl

theorem lookup_rebind (name : String) (value : Scalar) (bindings : List (String × Scalar)) :
    (rebind name value bindings).lookup name = some value := by
  induction bindings with
  | nil => simp [rebind]
  | cons b rest ih =>
    obtain ⟨n, v⟩ := b
    by_cases h : n = name
    · simp [rebind, h]
    · have h' : (name == n) = false := beq_false_of_ne (Ne.symm h)
      simp [rebind, h, List.lookup_cons, h', ih]

theorem positionalArgs_of_le (index : Nat) {count : Nat} {values : List Scalar}
    (h : count ≤ values.length) :
    positionalArgs index count values = .ok (values.take count) := by
  induction count generalizing index values with
  | zero => simp [positionalArgs]
  | succ n ih =>
    cases values with
    | nil => simp at h
    | cons v rest =>
      have := ih (index + 1) (Nat.le_of_succ_le_succ h)
      simp only [positionalArgs, this, List.take_succ_cons]
      rfl

end Query

end DocWire
