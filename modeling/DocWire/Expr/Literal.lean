import DocWire.Expr.Basic
import DocWire.Expr.Source

/-!
# Literals

Numbers, quoted strings, the keyword literals, cast types and interval units.

* `Numeral`         a numeral as written, with its exact decimal value;
* `Numeral.scalar`  integers up to `2 ^ 53 - 1` are kept as integers, fractions as doubles, and what
                    would lose precision as written text;
* `unquote`         the body of a quoted string;
* `literal`, `castType`, `intervalUnit`   the productions.
-/

namespace DocWire

/-- the greatest integer up to which doubles represent every integer -/
def maxSafeInteger : Nat := 2 ^ 53 - 1

/-- An unsigned numeral in its parts: the digits before the point, the digits after the point if
there is one, and the exponent as written, empty if there is none. -/
structure Numeral where
  whole : List Char
  fraction : Option (List Char)
  exponent : List Char
deriving DecidableEq

namespace Numeral

/-- the fraction at the start of a text: a point, unless a letter follows it, and digits -/
def fractionOf : List Char → Option (List Char)
  | ['.'] => some []
  | '.' :: c :: rest =>
    if Text.isAlphabetic c then none else some ((c :: rest).takeWhile Text.isDigit)
  | _ => none

def signOf : List Char → List Char
  | '+' :: _ => ['+']
  | '-' :: _ => ['-']
  | _ => []

/-- the exponent at the start of a text, empty unless it has a digit -/
def exponentOf : List Char → List Char
  | [] => []
  | c :: rest =>
    if c = 'e' ∨ c = 'E' then
      let sign := signOf rest
      let digits := (rest.drop sign.length).takeWhile Text.isDigit
      if digits.isEmpty then [] else c :: (sign ++ digits)
    else []

def fractionText (n : Numeral) : List Char := (n.fraction.map ('.' :: ·)).getD []

def text (n : Numeral) : List Char := n.whole ++ n.fractionText ++ n.exponent

def read (cs : List Char) : Numeral :=
  let whole := cs.takeWhile Text.isDigit
  let afterWhole := cs.drop whole.length
  let fraction := fractionOf afterWhole
  let afterFraction := afterWhole.drop ((fraction.map (·.length + 1)).getD 0)
  ⟨whole, fraction, exponentOf afterFraction⟩

def exponentValue (n : Numeral) : Int :=
  match n.exponent with
  | _ :: '-' :: digits => -(Text.digitsValue digits : Int)
  | _ :: '+' :: digits => Text.digitsValue digits
  | _ :: digits => Text.digitsValue digits
  | [] => 0

/-- The exact value: all digits as one number, and the power of ten that goes with it. -/
def value (n : Numeral) : Number.Decimal :=
  let fraction := n.fraction.getD []
  ⟨Text.digitsValue (n.whole ++ fraction), n.exponentValue - fraction.length⟩

def isIntegral (n : Numeral) : Bool := n.fraction.isNone && n.exponent.isEmpty

/-- The scalar of a numeral, with a minus sign before it or not. -/
def scalar (n : Numeral) (negative : Bool) : Scalar :=
  let whole := Text.digitsValue n.whole
  let written := Scalar.exact (String.ofList (if negative then '-' :: n.text else n.text))
  if maxSafeInteger < whole then written
  else if n.isIntegral then
    if negative then .sint (Int64.ofInt (-whole)) else .uint (UInt64.ofNat whole)
  else
    let format := Number.binary64
    let bits := format.ofDecimal n.value.digits n.value.power
    if format.isFinite bits then
      .double (UInt64.ofNat (if negative then format.negate bits else bits))
    else written

end Numeral

/-- Whether a numeral is next: a digit, or a point and a digit. -/
def Source.atNumeral (s : Source) : Bool :=
  match s.rest with
  | '.' :: c :: _ => Text.isDigit c
  | c :: _ => Text.isDigit c
  | [] => false

def numeral (negative : Bool) (s : Source) : Scalar × Source :=
  let n := Numeral.read s.rest
  (n.scalar negative, s.skip n.text.length)

/-- The text before the closing delimiter, and what follows that. The delimiter doubled, or behind a
backslash, stands for itself; a backslash before any other character stands for itself. -/
def unquote (delimiter : Char) : List Char → Option (List Char × List Char)
  | [] => none
  | ['\\'] => none
  | '\\' :: c :: rest =>
    (unquote delimiter rest).map fun (text, after) =>
      (if c = delimiter then c :: text else '\\' :: c :: text, after)
  | [c] => if c = delimiter then some ([], []) else none
  | c :: d :: rest =>
    if c = delimiter then
      if d = delimiter then
        (unquote delimiter rest).map fun (text, after) => (c :: text, after)
      else some ([], d :: rest)
    else (unquote delimiter (d :: rest)).map fun (text, after) => (c :: text, after)

def isQuote (c : Char) : Bool := c == '"' || c == '\'' || c == '`'

def quoted (s : Source) : Except SyntaxError (String × Source) :=
  match s.rest with
  | c :: body =>
    if isQuote c then
      match unquote c body with
      | some (text, after) =>
        .ok (String.ofList text, s.skip (s.rest.length - after.length))
      | none => s.fail .unterminatedString
    else s.fail (.expected "quoted string")
  | [] => s.fail (.expected "quoted string")

/-- `NULL`, `TRUE` or `FALSE`. -/
def keywordLiteral (s : Source) : Option (Scalar × Source) :=
  if let some t := s.eatKeyword "null" then some (.null, t)
  else if let some t := s.eatKeyword "true" then some (.bool true, t)
  else if let some t := s.eatKeyword "false" then some (.bool false, t)
  else none

def literal (s : Source) : Except SyntaxError (Scalar × Source) :=
  let s := s.skipBlanks
  let signed (negative : Bool) : Except SyntaxError (Scalar × Source) :=
    let t := (s.skip 1).skipBlanks
    if t.atNumeral then .ok (numeral negative t) else t.fail (.expected "number after sign")
  match keywordLiteral s with
  | some found => .ok found
  | none =>
    match s.peek with
    | some '"' | some '\'' => (quoted s).map fun (text, t) => (.str text, t)
    | some '-' => signed true
    | some '+' => signed false
    | _ => if s.atNumeral then .ok (numeral false s) else s.fail (.expected "literal")

/-- Up to `count` integers, at least one, with commas between them, and the closing parenthesis. -/
def typeParameters : Nat → Source → Except SyntaxError (List (List Char) × Source)
  | 0, s => s.fail (.expected "')'")
  | count + 1, s =>
    let s := s.skipBlanks
    let digits := s.rest.takeWhile Text.isDigit
    if digits.isEmpty then s.fail (.expected "integer type parameter")
    else
      let s := (s.skip digits.length).skipBlanks
      match s.eat ')' with
      | some s => .ok ([digits], s)
      | none =>
        if count = 0 then s.fail (.expected "')'")
        else
          match s.eat ',' with
          | some s => (typeParameters count s).map fun (more, s) => (digits :: more, s)
          | none => s.fail (.expected "',' or ')'")

/-- A type name, and up to `count` parameters if a parenthesis follows. -/
def parameterizedType (name : String) (count : Nat) (s : Source) :
    Except SyntaxError (String × Source) :=
  match s.skipBlanks.eat '(' with
  | none => .ok (name, s)
  | some t =>
    (typeParameters count t).map fun (parameters, t) =>
      (name ++ "(" ++ String.ofList ([','].intercalate parameters) ++ ")", t)

/-- The target type of a cast, in upper case and with single blanks. -/
def castType (s : Source) : Except SyntaxError (String × Source) :=
  let s := s.skipBlanks
  match s.word? with
  | none => s.fail (.expected "cast type")
  | some word =>
    let name := String.ofList (word.map Char.toUpper)
    let t := s.skip word.length
    match name with
    | "SIGNED" | "UNSIGNED" =>
      match t.skipBlanks.eatKeyword "integer" with
      | some t => .ok (name ++ " INTEGER", t)
      | none => .ok (name, t)
    | "CHAR" | "BINARY" => parameterizedType name 1 t
    | "DECIMAL" => parameterizedType name 2 t
    | "TIME" | "DATETIME" | "DATE" | "JSON" => .ok (name, t)
    | _ => s.fail .unknownCastType

def intervalUnits : List String :=
  ["MICROSECOND", "SECOND", "MINUTE", "HOUR", "DAY", "WEEK", "MONTH", "QUARTER", "YEAR",
    "SECOND_MICROSECOND", "MINUTE_MICROSECOND", "MINUTE_SECOND", "HOUR_MICROSECOND",
    "HOUR_SECOND", "HOUR_MINUTE", "DAY_MICROSECOND", "DAY_SECOND", "DAY_MINUTE", "DAY_HOUR",
    "YEAR_MONTH"]

/-- The unit of an interval, in upper case. -/
def intervalUnit (s : Source) : Except SyntaxError (String × Source) :=
  let s := s.skipBlanks
  match s.word? with
  | none => s.fail (.expected "interval unit")
  | some word =>
    let unit := String.ofList (word.map Char.toUpper)
    if intervalUnits.contains unit then .ok (unit, s.skip word.length)
    else s.fail .unknownIntervalUnit

end DocWire
