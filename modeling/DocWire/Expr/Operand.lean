import DocWire.Expr.Path
import DocWire.Text.Utf8

/-!
# Operands

What operators are applied to: literals, placeholders, fields, columns, calls, casts, objects,
arrays and expressions in parentheses.

The productions take the reader `expr` of the expressions inside brackets as a parameter. `bound`
is at least the number of characters left, so no loop over the text needs more rounds; with no
character left every production fails or stops of itself.

* `separated`              items with commas between them, up to a closing bracket;
* `columnFrom`, `callOf`   what an identifier begins;
* `operand`                any operand.
-/

namespace DocWire

/-- Items with commas between them, up to the bracket `close`. -/
def separated {α : Type} (item : Source → Except SyntaxError (α × Source)) (close : Char)
    (what : String) : Nat → Source → Except SyntaxError (List α × Source)
  | 0, s => do
    let (_, s) ← item s
    s.fail (.expected what)
  | bound + 1, s => do
    let (x, s) ← item s
    let s := s.skipBlanks
    match s.eat close with
    | some s => .ok ([x], s)
    | none =>
      match s.eat ',' with
      | some s => do
        let (xs, s) ← separated item close what bound s
        .ok (x :: xs, s)
      | none => s.fail (.expected what)

/-- Up to `count` further parts of a dotted name. A point that no identifier follows is left. -/
def dottedParts : Nat → Source → List String × Source
  | 0, s => ([], s)
  | count + 1, s =>
    match s.eat '.' with
    | none => ([], s)
    | some t =>
      match identifier t with
      | .error _ => ([], s)
      | .ok (part, t) =>
        let (parts, t) := dottedParts count t
        (part :: parts, t)

def ColumnRef.ofParts (first : String) : List String → ColumnRef
  | [] => { name := first }
  | [name] => { table := some first, name }
  | table :: name :: _ => { schema := some first, table := some table, name }

/-- The path into a column behind an arrow. Its offsets count from behind the quote that opens
it. -/
def arrowPath (s : Source) : Except SyntaxError (List PathItem × Source) :=
  let s := s.skipBlanks
  if s.peek.any isQuote then do
    let (text, t) ← quoted s
    match rootedPath text.toList with
    | .ok path => .ok (path, t)
    | .error e => .error { e with position := s.pos + 1 + e.position }
  else s.fail (.expected "quoted JSON path after '->'")

/-- The column whose name starts with `first`, and the path into it if an arrow follows. A double
arrow takes the quotes off the value found. -/
def columnFrom (first : String) (s : Source) : Except SyntaxError (Expr × Source) :=
  let (parts, s) := dottedParts 2 s
  let ref := ColumnRef.ofParts first parts
  let t := s.skipBlanks
  match t.eatText "->>" with
  | some t =>
    (arrowPath t).map fun (path, t) =>
      (.call none "JSON_UNQUOTE" [.column { ref with path }], t)
  | none =>
    match t.eatText "->" with
    | some t => (arrowPath t).map fun (path, t) => (.column { ref with path }, t)
    | none => .ok (.column ref, s)

/-- The field whose first step is `previous`, or the document itself. -/
def fieldFrom (bound : Nat) (previous : Option PathItem) (s : Source) :
    Except SyntaxError (Expr × Source) :=
  (segments bound previous s).map fun (path, s) => (.field (previous.toList ++ path), s)

/-- whether the word that is next stands before the character `c` -/
def Source.wordStandsBefore (s : Source) (c : Char) : Bool :=
  match s.word? with
  | some word => (s.skip word.length).skipBlanks.peek == some c
  | none => s.skipBlanks.peek == some c

section
variable (mode : Mode) (expr : Source → Except SyntaxError (Expr × Source)) (bound : Nat)

/-- an argument of a call: an expression, or a star of its own -/
def argument (s : Source) : Except SyntaxError (Expr × Source) :=
  let s := s.skipBlanks
  match s.eat '*' with
  | none => expr s
  | some t =>
    let t := t.skipBlanks
    if t.peek = some ',' ∨ t.peek = some ')' then .ok (.op "*" [], t)
    else s.fail (.expected "expression")

/-- The call of a function, from its opening parenthesis on. -/
def callOf (schema : Option String) (name : String) (s : Source) :
    Except SyntaxError (Expr × Source) := do
  let s ← s.expect '(' "'('"
  let s := s.skipBlanks
  match s.eat ')' with
  | some s => .ok (.call schema name [], s)
  | none =>
    let (args, s) ← separated (argument expr) ')' "',' or ')' in argument list" bound s
    .ok (.call schema name args, s)

/-- Decides between a call, a column and a field once the first identifier has been read. -/
def identifierTail (first : String) (s : Source) : Except SyntaxError (Expr × Source) :=
  let plain : Except SyntaxError (Expr × Source) :=
    match mode with
    | .table => columnFrom first s
    | .document => fieldFrom bound (some (.member first)) s
  if s.skipBlanks.peek = some '(' then callOf expr bound none first s.skipBlanks
  else
    match s.eat '.' with
    | none => plain
    | some t =>
      match identifier t with
      | .error _ => plain
      | .ok (second, t) =>
        if t.skipBlanks.peek = some '(' then callOf expr bound (some first) second t.skipBlanks
        else plain

/-- a cast, from its keyword on -/
def castOf (s : Source) : Except SyntaxError (Expr × Source) := do
  let s ← (s.skip 4).expect '(' "'('"
  let (value, s) ← expr s
  let s := s.skipBlanks
  match s.eatKeyword "as" with
  | none => s.fail (.expected "AS in CAST")
  | some s =>
    let (type, s) ← castType s
    let s ← s.expect ')' "')'"
    .ok (.op "cast" [value, .literal (.bytes (Text.Utf8.encode type))], s)

/-- A key and its value. Bare keys are for documents only. -/
def objectField (s : Source) : Except SyntaxError ((String × Expr) × Source) := do
  let s := s.skipBlanks
  let (key, s) ←
    if s.peek = some '"' ∨ s.peek = some '\'' then quoted s
    else
      match mode, s.word? with
      | .document, some word => .ok (String.ofList word, s.skip word.length)
      | _, _ => s.fail (.expected "object key")
  let s ← s.expect ':' "':' after object key"
  let (value, s) ← expr s
  .ok ((key, value), s)

/-- an object, from behind its opening brace on -/
def objectBody (s : Source) : Except SyntaxError (Expr × Source) :=
  let s := s.skipBlanks
  match s.eat '\x7d' with
  | some s => .ok (.object [], s)
  | none =>
    (separated (objectField mode expr) '\x7d' "',' or '\x7d'" bound s).map fun (fields, s) =>
      (.object fields, s)

/-- an array, from behind its opening bracket on -/
def arrayBody (s : Source) : Except SyntaxError (Expr × Source) :=
  let s := s.skipBlanks
  match s.eat ']' with
  | some s => .ok (.array [], s)
  | none => (separated expr ']' "',' or ']'" bound s).map fun (items, s) => (.array items, s)

/-- the name of a placeholder, from behind its colon on -/
def placeholderName (s : Source) : Except SyntaxError (Expr × Source) :=
  let name := s.rest.takeWhile fun c => Text.isAlphanumeric c || c == '_'
  if name.isEmpty then s.fail (.expected "placeholder name")
  else .ok (.named (String.ofList name), s.skip name.length)

/-- An operand that no operator stands before. -/
def operand (s : Source) : Except SyntaxError (Expr × Source) :=
  let s := s.skipBlanks
  match keywordLiteral s with
  | some (value, s) => .ok (.literal value, s)
  | none =>
    if s.atNumeral then
      let (value, s) := numeral false s
      .ok (.literal value, s)
    else
      match s.peek with
      | some '(' => do
        let (inner, s) ← expr (s.skip 1)
        let s ← s.expect ')' "')'"
        .ok (inner, s)
      | some '[' => arrayBody expr bound (s.skip 1)
      | some '\x7b' => objectBody mode expr bound (s.skip 1)
      | some '"' | some '\'' => (quoted s).map fun (text, s) => (.literal (.str text), s)
      | some '?' =>
        let t := s.skip 1
        .ok (.positional s.marks, { t with marks := s.marks + 1 })
      | some ':' => placeholderName (s.skip 1)
      | some '$' =>
        match mode with
        | .table => s.fail .pathInTableMode
        | .document => fieldFrom bound none (s.skip 1)
      | some '`' => do
        let (first, s) ← identifier s
        identifierTail mode expr bound first s
      | some c =>
        if isWordStart c then
          if s.atKeyword "cast" && s.wordStandsBefore '(' then castOf expr s
          else do
            let (first, s) ← bareIdentifier s
            identifierTail mode expr bound first s
        else s.fail (.expected "expression")
      | none => s.fail (.expected "expression")

end

end DocWire
