import DocWire.Number.Shortest
import DocWire.Text.Hex

/-!
# JSON values

Numbers are unsigned or negative integers of 64 bits where they can be, and doubles otherwise. The
members of an object are sorted by their keys.

* `Json`             the values;
* `Json.insert`      a member put in its place, in place of an older one of the same key;
* `Json.text`        the text without blanks;
* `doubleText`       the fewest digits that read back, with a fraction or an exponent.
-/

namespace DocWire

inductive Json
  | null
  | bool (value : Bool)
  | uint (value : UInt64)
  /-- a negative integer -/
  | sint (value : Int64)
  | double (bits : UInt64)
  | str (value : String)
  | array (items : List Json)
  /-- members in ascending order of their keys -/
  | object (members : List (String × Json))

namespace Json

/-- Puts a member in its place, in place of an older one of the same key. -/
def insert (key : String) (value : Json) : List (String × Json) → List (String × Json)
  | [] => [(key, value)]
  | (k, v) :: rest =>
    if key = k then (key, value) :: rest
    else if key < k then (key, value) :: (k, v) :: rest
    else (k, v) :: insert key value rest

/-- the object of members in any order, of which the last one of a key counts -/
def ofMembers (members : List (String × Json)) : Json :=
  object (members.foldl (fun sorted (key, value) => insert key value sorted) [])

def escape (c : Char) : List Char :=
  match c with
  | '"' => ['\\', '"']
  | '\\' => ['\\', '\\']
  | '\x08' => ['\\', 'b']
  | '\x0c' => ['\\', 'f']
  | '\n' => ['\\', 'n']
  | '\r' => ['\\', 'r']
  | '\t' => ['\\', 't']
  | c =>
    if c.toNat < 0x20 then
      ['\\', 'u', '0', '0'] ++ Text.Hex.byteDigits Text.Hex.lowerDigit (UInt8.ofNat c.toNat)
    else [c]

def quote (s : String) : String := String.ofList ('"' :: (s.toList.flatMap escape ++ ['"']))

/-- A decimal with a fraction or an exponent: positional from `0.00001` up to below `10 ^ 16`, and
otherwise one digit before the point and a signed exponent. -/
def decimalText (d : Number.Decimal) : List Char :=
  let digits := Number.digitsOf d.digits
  let exponent : Int := digits.length + d.power - 1
  if -5 ≤ exponent ∧ exponent < 16 then
    if 0 ≤ d.power then d.text ++ ['.', '0'] else d.text
  else
    let mantissa :=
      match digits with
      | [] => []
      | [only] => [only]
      | first :: rest => first :: '.' :: rest
    let sign := if exponent < 0 then '-' else '+'
    mantissa ++ 'e' :: sign :: Number.digitsOf exponent.natAbs

/-- the text of a double; those without digits are null -/
def doubleText (bits : UInt64) : String :=
  let format := Number.binary64
  match format.unpack bits.toNat with
  | .finite negative m q =>
    let digits :=
      if m = 0 then ['0', '.', '0'] else decimalText (Number.shortest format .even m q)
    String.ofList (if negative then '-' :: digits else digits)
  | _ => "null"

mutual

def text : Json → String
  | null => "null"
  | bool true => "true"
  | bool false => "false"
  | uint n => toString n.toNat
  | sint i => toString i.toInt
  | double bits => doubleText bits
  | str s => quote s
  | array items => "[" ++ textList items ++ "]"
  | object members => "\x7b" ++ textMembers members ++ "\x7d"

def textList : List Json → String
  | [] => ""
  | [v] => text v
  | v :: rest => text v ++ "," ++ textList rest

def textMembers : List (String × Json) → String
  | [] => ""
  | [(key, v)] => quote key ++ ":" ++ text v
  | (key, v) :: rest => quote key ++ ":" ++ text v ++ "," ++ textMembers rest

end

end Json

end DocWire
