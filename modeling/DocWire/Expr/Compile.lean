import DocWire.Expr.Ladder

/-!
# Compiling a text

A text is compiled from one of several productions and has to be consumed whole.

* `Entry`     the productions;
* `Compiled`  an expression, a sorting or a projection;
* `compile`, `compileExpr`, `compileSorting`, `compileProjection`   the ways in.
-/

namespace DocWire

/-- The productions that a text can be compiled from. -/
inductive Entry
  | expr
  | literal
  | functionCall
  | placeholder
  | documentField
  | columnIdent
  | jsonDoc
  | jsonArray
  | castType
  | sortExpr
  | projectedSearchExpr
deriving DecidableEq

/-- What a text is compiled to. -/
inductive Compiled
  | expr (e : Expr)
  | sorting (s : Sorting)
  | projection (p : Projection)

def Compiled.toExpr : Compiled → Expr
  | expr e => e
  | sorting s => s.expr
  | projection p => p.source

section
variable (mode : Mode) (bound : Nat)

/-- an expression and its direction, ascending unless `DESC` follows -/
def sorting (s : Source) : Except SyntaxError (Sorting × Source) := do
  let (e, s) ← exprWithin mode bound s
  let s := s.skipBlanks
  match s.eatKeyword "desc" with
  | some s => .ok (⟨e, .descending⟩, s)
  | none => .ok (⟨e, .ascending⟩, (s.eatKeyword "asc").getD s)

def projection (s : Source) : Except SyntaxError (Projection × Source) := do
  let (e, s) ← exprWithin mode bound s
  let s := s.skipBlanks
  match s.eatKeyword "as" with
  | none => .ok (⟨e, none⟩, s)
  | some s =>
    let (name, s) ← identifier s.skipBlanks
    .ok (⟨e, some name⟩, s)

/-- a call of a function, its name qualified by a schema or not -/
def functionCall (s : Source) : Except SyntaxError (Expr × Source) := do
  let expr := exprWithin mode bound
  let (first, s) ← identifier s.skipBlanks
  match s.eat '.' with
  | none => callOf expr bound none first s
  | some s =>
    let (second, s) ← identifier s
    callOf expr bound (some first) second s

def placeholder (s : Source) : Except SyntaxError (Expr × Source) :=
  let s := s.skipBlanks
  if s.peek = some '?' ∨ s.peek = some ':' then
    operand mode (exprWithin mode bound) bound s
  else s.fail (.expected "placeholder")

def documentField (s : Source) : Except SyntaxError (Expr × Source) :=
  match mode with
  | .table => s.fail .fieldInTableMode
  | .document =>
    let s := s.skipBlanks
    match s.eat '$' with
    | some s => fieldFrom bound none s
    | none => do
      let (first, s) ← bareIdentifier s
      fieldFrom bound (some (.member first)) s

def columnIdent (s : Source) : Except SyntaxError (Expr × Source) := do
  let (first, s) ← identifier s.skipBlanks
  columnFrom first s

def jsonDoc (s : Source) : Except SyntaxError (Expr × Source) := do
  let s ← s.expect '\x7b' "'\x7b'"
  objectBody mode (exprWithin mode bound) bound s

def jsonArray (s : Source) : Except SyntaxError (Expr × Source) := do
  let s ← s.expect '[' "'['"
  arrayBody (exprWithin mode bound) bound s

/-- what stands at the start of a text of at most `bound` characters -/
def production (entry : Entry) (s : Source) : Except SyntaxError (Compiled × Source) :=
  let expression (r : Except SyntaxError (Expr × Source)) :
      Except SyntaxError (Compiled × Source) := r.map fun (e, s) => (.expr e, s)
  match entry with
  | .expr => expression (exprWithin mode bound s)
  | .literal => (literal s).map fun (value, s) => (.expr (.literal value), s)
  | .functionCall => expression (functionCall mode bound s)
  | .placeholder => expression (placeholder mode bound s)
  | .documentField => expression (documentField mode bound s)
  | .columnIdent => expression (columnIdent s)
  | .jsonDoc => expression (jsonDoc mode bound s)
  | .jsonArray => expression (jsonArray mode bound s)
  | .castType =>
    (castType s).map fun (type, s) => (.expr (.literal (.bytes (Text.Utf8.encode type))), s)
  | .sortExpr => (sorting mode bound s).map fun (e, s) => (.sorting e, s)
  | .projectedSearchExpr => (projection mode bound s).map fun (p, s) => (.projection p, s)

end

/-- Compiles a whole text from a production. -/
def compile (text : String) (mode : Mode) (entry : Entry) : Except SyntaxError Compiled := do
  let s := Source.ofList text.toList
  let (compiled, s) ← production mode s.rest.length entry s
  let s := s.skipBlanks
  if s.rest.isEmpty then .ok compiled else s.fail .unexpectedInput

def compileExpr (text : String) (mode : Mode) : Except SyntaxError Expr :=
  (compile text mode .expr).map Compiled.toExpr

/-- Compiles an expression to sort by. -/
def compileSorting (text : String) (mode : Mode) : Except SyntaxError Sorting :=
  (compile text mode .sortExpr).map fun
    | .sorting s => s
    | other => ⟨other.toExpr, .ascending⟩

/-- Compiles an expression to return. -/
def compileProjection (text : String) (mode : Mode) : Except SyntaxError Projection :=
  (compile text mode .projectedSearchExpr).map fun
    | .projection p => p
    | other => ⟨other.toExpr, none⟩

end DocWire
