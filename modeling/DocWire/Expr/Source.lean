import DocWire.Text.Blank
import DocWire.Text.Letters

/-!
# The text of an expression as it is read

A source is what is left of the text, the byte offset at which that begins, and the number of `?`
placeholders met so far. Reading gives a new source and leaves the old one usable, so looking ahead
and going back need no care.

* `Source`                       the text that is left;
* `Source.skip`                  the one way forward, with its equation for the offset;
* `eat`, `eatText`, `eatOp`      a given character or spelling;
* `word?`, `eatKeyword`          identifier-shaped words;
* `SyntaxError`                  a complaint at an offset, and what was found there.
-/

namespace DocWire

/-- What is wrong with the text of an expression. -/
inductive Complaint
  /-- something else should stand here -/
  | expected (what : String)
  | unexpectedInput
  | reservedWord (word : String)
  | fieldInTableMode
  | pathInTableMode
  | missingLeftOperand
  | unterminatedString
  | unknownCastType
  | unknownIntervalUnit
  | repeatedDescendants
  | lastDescendants
  | emptyMember
  | unseparatedMember
  | indexOutOfRange
  | unrootedPath
  | unexpectedPathInput
deriving DecidableEq

def Complaint.message : Complaint → String
  | expected what => "expected " ++ what
  | unexpectedInput => "unexpected input"
  | reservedWord word => "'" ++ word ++ "' is a reserved word"
  | fieldInTableMode => "document fields are not available in table mode"
  | pathInTableMode => "document paths are only valid in document mode"
  | missingLeftOperand => "NOT-prefixed operator is missing its left operand"
  | unterminatedString => "unterminated string"
  | unknownCastType => "unknown cast type"
  | unknownIntervalUnit => "unknown interval unit"
  | repeatedDescendants => "'**' cannot follow '**'"
  | lastDescendants => "'**' cannot be the last path segment"
  | emptyMember => "empty path member"
  | unseparatedMember => "quoted path member must be followed by '.'"
  | indexOutOfRange => "array index out of range"
  | unrootedPath => "JSON path must start with '$'"
  | unexpectedPathInput => "unexpected input in JSON path"

/-- A complaint about the text at a byte offset, with the character found there. -/
structure SyntaxError where
  position : Nat
  complaint : Complaint
  found : Option Char
deriving DecidableEq

/-- the wording of an error, without its position -/
def SyntaxError.message (e : SyntaxError) : String :=
  e.complaint.message ++ ", found "
    ++ match e.found with
      | some c => "'" ++ String.singleton c ++ "'"
      | none => "end of input"

/-- Text that is being read. -/
structure Source where
  rest : List Char
  pos : Nat := 0
  marks : Nat := 0
deriving DecidableEq

def byteLength (cs : List Char) : Nat := (cs.map Char.utf8Size).sum

theorem byteLength_nil : byteLength [] = 0 := rfl

theorem byteLength_cons (c : Char) (cs : List Char) :
    byteLength (c :: cs) = c.utf8Size + byteLength cs := by
  simp [byteLength]

theorem byteLength_append (cs ds : List Char) :
    byteLength (cs ++ ds) = byteLength cs + byteLength ds := by
  simp [byteLength]

def isWordStart (c : Char) : Bool := Text.isAlphabetic c || c == '_'

def isWordChar (c : Char) : Bool := Text.isAlphanumeric c || c == '_' || c == '$'

/-- the words that are no identifiers, in any letter case -/
def reservedWords : List String :=
  ["and", "or", "not", "is", "in", "like", "regexp", "between", "overlaps", "escape", "div",
    "interval", "null", "true", "false"]

def sameWord (a b : List Char) : Bool := a.map Char.toLower == b.map Char.toLower

def isReserved (word : List Char) : Bool := reservedWords.any fun r => sameWord r.toList word

namespace Source

def ofList (cs : List Char) : Source := { rest := cs }

def skip (s : Source) (n : Nat) : Source :=
  { s with rest := s.rest.drop n, pos := s.pos + byteLength (s.rest.take n) }

theorem skip_zero (s : Source) : s.skip 0 = s := by simp [skip, byteLength_nil]

/-- The offset grows by the bytes passed. -/
theorem pos_skip_add (s : Source) (n : Nat) :
    (s.skip n).pos + byteLength (s.skip n).rest = s.pos + byteLength s.rest := by
  simp only [skip, Nat.add_assoc, ← byteLength_append, List.take_append_drop]

/-- passes characters as long as they satisfy `p` -/
def skipWhile (p : Char → Bool) (s : Source) : Source := s.skip (s.rest.takeWhile p).length

def skipBlanks (s : Source) : Source := s.skipWhile Text.isBlank

def peek (s : Source) : Option Char := s.rest.head?

def peekSecond (s : Source) : Option Char := s.rest.tail.head?

def complain (s : Source) (what : Complaint) : SyntaxError := ⟨s.pos, what, s.peek⟩

def fail {α : Type} (s : Source) (what : Complaint) : Except SyntaxError α :=
  .error (s.complain what)

def eat (s : Source) (c : Char) : Option Source :=
  if s.peek = some c then some (s.skip 1) else none

def eatText (s : Source) (text : String) : Option Source :=
  if text.toList.isPrefixOf s.rest then some (s.skip text.toList.length) else none

/-- The source after a spelling, unless it goes on with one of the given characters: this tells
`<` from `<<` and `&` from `&&`. -/
def eatOp (s : Source) (text : String) (notBefore : List Char) : Option Source :=
  match s.eatText text with
  | none => none
  | some t =>
    match t.peek with
    | some c => if notBefore.contains c then none else some t
    | none => some t

def word? (s : Source) : Option (List Char) :=
  match s.peek with
  | some c => if isWordStart c then some (s.rest.takeWhile isWordChar) else none
  | none => none

/-- Whether a keyword is next, in any letter case and as a whole word. -/
def atKeyword (s : Source) (keyword : String) : Bool :=
  match s.word? with
  | some word => sameWord word keyword.toList
  | none => false

/-- The source after a keyword, if that is next. -/
def eatKeyword (s : Source) (keyword : String) : Option Source :=
  if s.atKeyword keyword then some (s.skip keyword.toList.length) else none

/-- Passes blanks and the character `c`, which has to follow. -/
def expect (s : Source) (c : Char) (what : String) : Except SyntaxError Source :=
  match s.skipBlanks.eat c with
  | some t => .ok t
  | none => s.skipBlanks.fail (.expected what)

end Source

end DocWire
