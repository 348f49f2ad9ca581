import DocWire.Expr.Operand

/-!
# The ladder of operators

From the loosest to the tightest:

* or            `||`, `OR`;
* and           `&&`, `AND`;
* predicates    `IS`, `IN`, `LIKE`, `REGEXP`, `BETWEEN`, `OVERLAPS`, most of them also negated;
* comparison    `==` `=` `!=` `<>` `>` `>=` `<` `<=`;
* shift         `<<` `>>`;
* bit           `&` `|` `^`;
* additive      `+` `-`;
* multiplicative   `*` `/` `%` `DIV`;
* interval      `+ INTERVAL n unit`, `- INTERVAL n unit`;
* unary         `!` `~` `+` `-` `NOT`.

A binary level folds to the left. Each level is a reader made from the reader of the level below
it; `exprWithin` ties the ladder to the expressions inside brackets, of which each has at least one
character less to read than the one around it.
-/

namespace DocWire

/-- the keywords that `NOT` may stand before as a part of a predicate -/
def negatable : List String := ["in", "like", "regexp", "between", "overlaps"]

def Source.atNegatable (s : Source) : Bool := negatable.any s.atKeyword

/-- The operators of a level: the name of the operator that is next, and the text after it. -/
abbrev Operators := Source → Option (String × Source)

def firstOf : List (Option (String × Source)) → Option (String × Source)
  | [] => none
  | some found :: _ => some found
  | none :: rest => firstOf rest

/-- an alternative with its name -/
def called (name : String) (s : Option Source) : Option (String × Source) :=
  s.map fun s => (name, s)

def orOperators : Operators := fun s =>
  firstOf [called "||" (s.eatText "||"), called "||" (s.eatKeyword "or")]

def andOperators : Operators := fun s =>
  firstOf [called "&&" (s.eatText "&&"), called "&&" (s.eatKeyword "and")]

def comparisonOperators : Operators := fun s =>
  firstOf [called "==" (s.eatText "=="), called "!=" (s.eatText "!="),
    called "!=" (s.eatText "<>"), called ">=" (s.eatText ">="), called "<=" (s.eatText "<="),
    called "==" (s.eatText "="), called ">" (s.eatOp ">" ['>']), called "<" (s.eatOp "<" ['<'])]

def shiftOperators : Operators := fun s =>
  firstOf [called "<<" (s.eatText "<<"), called ">>" (s.eatText ">>")]

def bitOperators : Operators := fun s =>
  firstOf [called "&" (s.eatOp "&" ['&']), called "|" (s.eatOp "|" ['|']),
    called "^" (s.eatText "^")]

/-- sum and difference -/
def additiveOperators : Operators := fun s =>
  firstOf [called "+" (s.eatText "+"), called "-" (s.eatOp "-" ['>'])]

def multiplicativeOperators : Operators := fun s =>
  firstOf [called "*" (s.eatOp "*" ['*']), called "/" (s.eatText "/"), called "%" (s.eatText "%"),
    called "div" (s.eatKeyword "div")]

/-- Further operands of a binary level, folded to the left onto `lhs`. -/
def chain (operators : Operators) (operand : Source → Except SyntaxError (Expr × Source)) :
    Nat → Expr → Source → Except SyntaxError (Expr × Source)
  | 0, lhs, s => .ok (lhs, s.skipBlanks)
  | bound + 1, lhs, s =>
    match operators s.skipBlanks with
    | none => .ok (lhs, s.skipBlanks)
    | some (name, s) => do
      let (rhs, s) ← operand s
      chain operators operand bound (.op name [lhs, rhs]) s

def binaryLevel (operators : Operators) (operand : Source → Except SyntaxError (Expr × Source))
    (bound : Nat) (s : Source) : Except SyntaxError (Expr × Source) := do
  let (lhs, s) ← operand s
  chain operators operand bound lhs s

section
variable (mode : Mode) (expr : Source → Except SyntaxError (Expr × Source)) (bound : Nat)

/-- a reserved word as a field or a column -/
def reservedOperand (s : Source) : Except SyntaxError (Expr × Source) :=
  let word := s.word?.getD []
  let name := String.ofList word
  match mode with
  | .document => .ok (.field [.member name], s.skip word.length)
  | .table => .ok (.bareColumn name, s.skip word.length)

/-- Operators before an operand. A minus is a part of the number that follows it. A `NOT` right
before a `NOT` of a negated predicate has nothing to negate and is an operand itself. -/
def unaryLevel : Nat → Source → Except SyntaxError (Expr × Source)
  | 0, s => s.skipBlanks.fail (.expected "expression")
  | count + 1, s =>
    let s := s.skipBlanks
    let applied (name : String) (t : Source) : Except SyntaxError (Expr × Source) := do
      let (arg, t) ← unaryLevel count t
      .ok (.unary name arg, t)
    if let some t := s.eatOp "!" ['='] then applied "!" t
    else if let some t := s.eat '~' then applied "~" t
    else if let some t := s.eat '+' then applied "sign_plus" t
    else if let some t := s.eatOp "-" ['>'] then
      let t := t.skipBlanks
      if t.atNumeral then
        let (value, t) := numeral true t
        .ok (.literal value, t)
      else applied "sign_minus" t
    else if let some t := s.eatKeyword "not" then
      let t := t.skipBlanks
      let doubled :=
        match t.eatKeyword "not" with
        | some u => u.skipBlanks.atNegatable
        | none => false
      if doubled then reservedOperand mode s
      else if t.atNegatable then s.fail .missingLeftOperand
      else applied "not" t
    else operand mode expr bound s

/-- Intervals added and subtracted, folded to the left onto `lhs`. -/
def intervalChain (unary : Source → Except SyntaxError (Expr × Source)) :
    Nat → Expr → Source → Except SyntaxError (Expr × Source)
  | 0, lhs, s => .ok (lhs, s.skipBlanks)
  | count + 1, lhs, s =>
    let t := s.skipBlanks
    let name? :=
      if t.peek = some '+' then some "date_add"
      else if t.peek = some '-' ∧ t.peekSecond ≠ some '>' then some "date_sub"
      else none
    match name? with
    | none => .ok (lhs, t)
    | some name =>
      match (t.skip 1).skipBlanks.eatKeyword "interval" with
      | none => .ok (lhs, s)
      | some t => do
        let (amount, t) ← unary t
        let (unit, t) ← intervalUnit t
        let unit := Expr.literal (.bytes (Text.Utf8.encode unit))
        intervalChain unary count (.op name [lhs, amount, unit]) t

def intervalLevel (s : Source) : Except SyntaxError (Expr × Source) := do
  let unary := unaryLevel mode expr bound bound
  let (lhs, s) ← unary s
  intervalChain unary bound lhs s

def multiplicativeLevel : Source → Except SyntaxError (Expr × Source) :=
  binaryLevel multiplicativeOperators (intervalLevel mode expr bound) bound

def additiveLevel : Source → Except SyntaxError (Expr × Source) :=
  binaryLevel additiveOperators (multiplicativeLevel mode expr bound) bound

def bitLevel : Source → Except SyntaxError (Expr × Source) :=
  binaryLevel bitOperators (additiveLevel mode expr bound) bound

def shiftLevel : Source → Except SyntaxError (Expr × Source) :=
  binaryLevel shiftOperators (bitLevel mode expr bound) bound

def comparisonLevel : Source → Except SyntaxError (Expr × Source) :=
  binaryLevel comparisonOperators (shiftLevel mode expr bound) bound

/-- Whether an operator follows that would take a closed parenthesis as its left operand. -/
def Source.continuesOperand (s : Source) : Bool :=
  (match s.peek with
    | some '&' => s.peekSecond != some '&'
    | some '|' => s.peekSecond != some '|'
    | some c => ['+', '-', '*', '/', '%', '<', '>', '=', '!', '^'].contains c
    | none => false)
  || s.atKeyword "div"

/-- The items of a list behind its opening parenthesis, or nothing if the parenthesis opens an
operand, as in `a IN (b) + 1`: it holds one item then, and an operator follows it. -/
def parenthesizedList (s : Source) : Except SyntaxError (Option (List Expr) × Source) := do
  let (items, s) ← separated expr ')' "',' or ')'" bound s
  if s.skipBlanks.continuesOperand && items.length == 1 then .ok (none, s)
  else .ok (some items, s)

/-- `IS` and `IS NOT` behind their left operand -/
def isPredicate (lhs : Expr) (s : Source) : Except SyntaxError (Expr × Source) :=
  let s := s.skipBlanks
  let (name, s) :=
    match s.eatKeyword "not" with
    | some s => ("is_not", s.skipBlanks)
    | none => ("is", s)
  match keywordLiteral s with
  | some (value, s) => .ok (.op name [lhs, .literal value], s)
  | none => s.fail (.expected "NULL, TRUE or FALSE after IS")

/-- The predicates that can be negated, behind their left operand and their `NOT`. -/
def negatablePredicate (negated : Bool) (lhs : Expr) (s : Source) :
    Except SyntaxError (Expr × Source) :=
  let comparison := comparisonLevel mode expr bound
  let name (plain : String) : String := if negated then "not_" ++ plain else plain
  let withOperand (plain : String) (s : Source) : Except SyntaxError (Expr × Source) := do
    let (rhs, s) ← comparison s
    .ok (.op (name plain) [lhs, rhs], s)
  if let some s := s.eatKeyword "in" then do
    let s := s.skipBlanks
    match s.eat '(' with
    | none => withOperand "cont_in" s
    | some t =>
      match (← parenthesizedList expr bound t) with
      | (some items, t) => .ok (.op (name "in") (lhs :: items), t)
      | (none, _) => withOperand "cont_in" s
  else if let some s := s.eatKeyword "like" then do
    let (pattern, s) ← comparison s
    let s := s.skipBlanks
    match s.eatKeyword "escape" with
    | none => .ok (.op (name "like") [lhs, pattern], s)
    | some s =>
      let (escape, s) ← comparison s
      .ok (.op (name "like") [lhs, pattern, escape], s)
  else if let some s := s.eatKeyword "regexp" then withOperand "regexp" s
  else if let some s := s.eatKeyword "between" then do
    let (low, s) ← comparison s
    let s := s.skipBlanks
    match s.eatKeyword "and" with
    | none => s.fail (.expected "AND in BETWEEN")
    | some s =>
      let (high, s) ← comparison s
      .ok (.op (name "between") [lhs, low, high], s)
  else if let some s := s.eatKeyword "overlaps" then withOperand "overlaps" s
  else .ok (lhs, s)

/-- the level of predicates; a `NOT` that no predicate follows is left -/
def predicateLevel (s : Source) : Except SyntaxError (Expr × Source) := do
  let (lhs, s) ← comparisonLevel mode expr bound s
  let s := s.skipBlanks
  match s.eatKeyword "is" with
  | some s => isPredicate lhs s
  | none =>
    match s.eatKeyword "not" with
    | none => negatablePredicate mode expr bound false lhs s
    | some t =>
      if t.skipBlanks.atNegatable then
        negatablePredicate mode expr bound true lhs t.skipBlanks
      else .ok (lhs, s)

def andLevel : Source → Except SyntaxError (Expr × Source) :=
  binaryLevel andOperators (predicateLevel mode expr bound) bound

/-- the level of `OR`, which is the whole ladder -/
def orLevel : Source → Except SyntaxError (Expr × Source) :=
  binaryLevel orOperators (andLevel mode expr bound) bound

end

/-- The expression at the start of a text of at most `bound` characters. -/
def exprWithin (mode : Mode) : Nat → Source → Except SyntaxError (Expr × Source)
  | 0, s => s.skipBlanks.fail (.expected "expression")
  | bound + 1, s => orLevel mode (exprWithin mode bound) (bound + 1) s

theorem exprWithin_succ (mode : Mode) (bound : Nat) (s : Source) :
    exprWithin mode (bound + 1) s = orLevel mode (exprWithin mode bound) (bound + 1) s := rfl

end DocWire
