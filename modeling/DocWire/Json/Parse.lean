import DocWire.Json.Numeral

/-!
# Reading JSON

* `Json.string?`   the body of a string;
* `Json.value?`    the value at the start of a text, within a depth of nesting;
* `Json.parse?`    the value that a text consists of.
-/

namespace DocWire.Json

/-- how deep arrays and objects nest -/
def maxNesting : Nat := 127

def isSpace (c : Char) : Bool := c == ' ' || c == '\n' || c == '\t' || c == '\r'

def skipSpace (cs : List Char) : List Char := cs.dropWhile isSpace

/-- the code unit that four hexadecimal digits denote -/
def unit? (a b c d : Char) : Option Nat := do
  let a ← Text.Hex.digitValue? a
  let b ← Text.Hex.digitValue? b
  let c ← Text.Hex.digitValue? c
  let d ← Text.Hex.digitValue? d
  pure (((a * 16 + b) * 16 + c) * 16 + d)

def letterEscape? : Char → Option Char
  | '"' => some '"'
  | '\\' => some '\\'
  | '/' => some '/'
  | 'b' => some '\x08'
  | 'f' => some '\x0c'
  | 'n' => some '\n'
  | 'r' => some '\r'
  | 't' => some '\t'
  | _ => none

/-- What an escape stands for, from behind its backslash on. Code units above `U+FFFF` come as a
high and a low half, and neither half stands alone. -/
def escape? : List Char → Option (Char × List Char)
  | 'u' :: a :: b :: c :: d :: rest => do
    let high ← unit? a b c d
    if 0xdc00 ≤ high ∧ high < 0xe000 then none
    else if 0xd800 ≤ high ∧ high < 0xdc00 then
      match rest with
      | '\\' :: 'u' :: a :: b :: c :: d :: rest => do
        let low ← unit? a b c d
        if 0xdc00 ≤ low ∧ low < 0xe000 then
          pure (Char.ofNat (0x10000 + (high - 0xd800) * 0x400 + (low - 0xdc00)), rest)
        else none
      | _ => none
    else pure (Char.ofNat high, rest)
  | c :: rest => (letterEscape? c).map fun c => (c, rest)
  | [] => none

/-- The body of a string of at most `bound` characters, and what follows its closing quote. -/
def string? : Nat → List Char → Option (List Char × List Char)
  | _, [] => none
  | 0, _ => none
  | bound + 1, c :: rest =>
    if c = '"' then some ([], rest)
    else if c = '\\' then do
      let (c, rest) ← escape? rest
      let (text, rest) ← string? bound rest
      pure (c :: text, rest)
    else if c.toNat < 0x20 then none
    else (string? bound rest).map fun (text, rest) => (c :: text, rest)

/-- Items with commas between them, up to a closing bracket, at most `bound` of them. -/
def items? {α : Type} (item : List Char → Option (α × List Char)) (close : Char) :
    Nat → List Char → Option (List α × List Char)
  | 0, _ => none
  | bound + 1, cs => do
    let (x, rest) ← item (skipSpace cs)
    match skipSpace rest with
    | c :: rest =>
      if c = close then pure ([x], rest)
      else if c = ',' then do
        let (xs, rest) ← items? item close bound rest
        pure (x :: xs, rest)
      else none
    | [] => none

/-- What brackets enclose, possibly nothing, from behind the opening one on. -/
def enclosed? {α : Type} (item : List Char → Option (α × List Char)) (close : Char)
    (cs : List Char) : Option (List α × List Char) :=
  match skipSpace cs with
  | c :: rest => if c = close then some ([], rest) else items? item close cs.length cs
  | [] => none

def member? (value : List Char → Option (Json × List Char)) :
    List Char → Option ((String × Json) × List Char)
  | '"' :: cs => do
    let (key, rest) ← string? cs.length cs
    match skipSpace rest with
    | ':' :: rest => do
      let (v, rest) ← value (skipSpace rest)
      pure ((String.ofList key, v), rest)
    | _ => none
  | _ => none

/-- The value at the start of a text, with at most `depth` arrays and objects inside each other. -/
def value? : Nat → List Char → Option (Json × List Char)
  | 0, cs => scalar? cs
  | depth + 1, cs =>
    match cs with
    | '[' :: rest => (enclosed? (value? depth) ']' rest).map fun (xs, rest) => (.array xs, rest)
    | '\x7b' :: rest =>
      (enclosed? (member? (value? depth)) '\x7d' rest).map fun (xs, rest) => (ofMembers xs, rest)
    | cs => scalar? cs
where
  /-- a value that is neither array nor object -/
  scalar? : List Char → Option (Json × List Char)
    | 'n' :: 'u' :: 'l' :: 'l' :: rest => some (.null, rest)
    | 't' :: 'r' :: 'u' :: 'e' :: rest => some (.bool true, rest)
    | 'f' :: 'a' :: 'l' :: 's' :: 'e' :: rest => some (.bool false, rest)
    | '"' :: cs =>
      (string? cs.length cs).map fun (text, rest) => (.str (String.ofList text), rest)
    | cs => number? cs

def parse? (text : String) : Option Json := do
  let (value, rest) ← value? maxNesting (skipSpace text.toList)
  if (skipSpace rest).isEmpty then pure value else none

end DocWire.Json
