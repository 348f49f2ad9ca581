/-!
# UTF-8

Reading bytes as text, one byte at a time. A part of the input that no further byte can make into
a character is given up as soon as that is known, so ill-formed input falls into maximal
ill-formed parts with the characters between them.

* `encode`       the bytes of a text;
* `scan`         the characters and ill-formed parts of a byte sequence, in order;
* `decode?`      the text, if no part is ill-formed;
* `decodeLossy`  the text with the replacement character in place of each ill-formed part.
-/

namespace DocWire.Text.Utf8

def encode (s : String) : List UInt8 := s.toList.flatMap String.utf8EncodeChar

theorem encode_ofList_append (cs ds : List Char) :
    encode (String.ofList (cs ++ ds)) = encode (String.ofList cs) ++ encode (String.ofList ds) := by
  simp [encode, List.flatMap_append]

/-- A character of which some bytes are still to come: how many, the bounds of the next one, and
the number read so far. -/
structure Unfinished where
  more : Nat
  low : UInt8
  high : UInt8
  value : Nat
deriving DecidableEq

/-- What a first byte starts: a finished character, an unfinished one, or nothing. -/
def begin (b : UInt8) : List (Option Char) × Option Unfinished :=
  if b < 0x80 then ([some (Char.ofNat b.toNat)], none)
  else if b < 0xc2 then ([none], none)
  else if b < 0xe0 then ([], some ⟨1, 0x80, 0xbf, b.toNat - 0xc0⟩)
  else if b < 0xf0 then
    let low : UInt8 := if b = 0xe0 then 0xa0 else 0x80
    let high : UInt8 := if b = 0xed then 0x9f else 0xbf
    ([], some ⟨2, low, high, b.toNat - 0xe0⟩)
  else if b < 0xf5 then
    let low : UInt8 := if b = 0xf0 then 0x90 else 0x80
    let high : UInt8 := if b = 0xf4 then 0x8f else 0xbf
    ([], some ⟨3, low, high, b.toNat - 0xf0⟩)
  else ([none], none)

/-- One more byte: what it completes, and what is unfinished after it. -/
def step : Option Unfinished → UInt8 → List (Option Char) × Option Unfinished
  | none, b => begin b
  | some u, b =>
    if u.low ≤ b ∧ b ≤ u.high then
      let value := u.value * 64 + (b.toNat - 0x80)
      if u.more ≤ 1 then ([some (Char.ofNat value)], none)
      else ([], some ⟨u.more - 1, 0x80, 0xbf, value⟩)
    else
      let (parts, u) := begin b
      (none :: parts, u)

/-- The parts of a byte sequence: characters, and `none` for each ill-formed part. -/
def scan : Option Unfinished → List UInt8 → List (Option Char)
  | none, [] => []
  | some _, [] => [none]
  | u, b :: rest => (step u b).1 ++ scan (step u b).2 rest

theorem scan_nil : scan none [] = [] := rfl

theorem scan_cons (u : Option Unfinished) (b : UInt8) (rest : List UInt8) :
    scan u (b :: rest) = (step u b).1 ++ scan (step u b).2 rest := by
  cases u <;> rfl

def decode? (bytes : List UInt8) : Option String :=
  ((scan none bytes).mapM fun part => part).map String.ofList

/-- The text of any bytes, each ill-formed part replaced. -/
def decodeLossy (bytes : List UInt8) : String :=
  String.ofList ((scan none bytes).map fun part => part.getD '\ufffd')

end DocWire.Text.Utf8
