import DocWire.Json.Basic
import DocWire.Scalar
import DocWire.Text.Utf8

/-!
# Compound values

Scalars, objects and arrays of them, as arguments and capabilities carry them.

* `AnyValue`           the values;
* `AnyValue.text`      their wording;
* `AnyValue.ofJson`    the value of a JSON value;
* `AnyValue.strings`   the strings of an array.
-/

namespace DocWire

/-- A scalar, an object or an array. The members of an object keep their order, and a key may occur
twice. -/
inductive AnyValue
  | scalar (value : Scalar)
  | object (members : List (String × AnyValue))
  | array (items : List AnyValue)
deriving Inhabited

namespace AnyValue

mutual

def text : AnyValue → String
  | scalar value => value.text
  | object members => "\x7b" ++ textMembers members ++ "\x7d"
  | array items => "[" ++ textList items ++ "]"

def textList : List AnyValue → String
  | [] => ""
  | [v] => text v
  | v :: rest => text v ++ ", " ++ textList rest

def textMembers : List (String × AnyValue) → String
  | [] => ""
  | [(key, v)] => Text.quote key ++ ": " ++ text v
  | (key, v) :: rest => Text.quote key ++ ": " ++ text v ++ ", " ++ textMembers rest

end

mutual

def ofJson : Json → AnyValue
  | .null => scalar .null
  | .bool b => scalar (.bool b)
  | .uint n => scalar (.uint n)
  | .sint i => scalar (.sint i)
  | .double bits => scalar (.double bits)
  | .str s => scalar (.str s)
  | .array items => array (ofJsonList items)
  | .object members => object (ofJsonMembers members)

def ofJsonList : List Json → List AnyValue
  | [] => []
  | v :: rest => ofJson v :: ofJsonList rest

def ofJsonMembers : List (String × Json) → List (String × AnyValue)
  | [] => []
  | (key, v) :: rest => (key, ofJson v) :: ofJsonMembers rest

end

def asScalar : AnyValue → Option Scalar
  | scalar value => some value
  | _ => none

def itemString : AnyValue → Option String
  | scalar (.str s) => some s
  | scalar (.bytes b) => some (Text.Utf8.decodeLossy b)
  | _ => none

/-- The strings of an array, or a single string. -/
def strings : AnyValue → List String
  | array items => items.filterMap itemString
  | scalar (.str s) => [s]
  | _ => []

end AnyValue

end DocWire
