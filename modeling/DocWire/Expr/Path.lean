import DocWire.Expr.Literal

/-!
# Document paths

Paths such as `$.a.b[0]`, `$**.c` and `foo[*].bar`. Blanks are allowed inside brackets only. A `**`
neither ends a path nor follows another one, and a quoted member is set off from what follows it.

* `segments`    the steps after a root or a leading member;
* `rootedPath`  a text that is one path.
-/

namespace DocWire

def bareIdentifier (s : Source) : Except SyntaxError (String × Source) :=
  match s.word? with
  | some word =>
    if isReserved word then s.fail (.reservedWord (String.ofList word))
    else .ok (String.ofList word, s.skip word.length)
  | none => s.fail (.expected "identifier")

def identifier (s : Source) : Except SyntaxError (String × Source) :=
  if s.peek = some '`' then quoted s else bareIdentifier s

/-- The step after a point: a wildcard, a quoted name or a word. -/
def memberStep (s : Source) : Except SyntaxError (PathItem × Source) :=
  match s.peek with
  | some '.' => s.fail .emptyMember
  | some '*' =>
    if s.peekSecond = some '*' then s.fail (.expected "path member")
    else .ok (.anyMember, s.skip 1)
  | some c =>
    if isQuote c then do
      let (name, t) ← quoted s
      if t.peek.any isWordChar then t.fail .unseparatedMember
      else .ok (.member name, t)
    else
      match s.word? with
      | some word => .ok (.member (String.ofList word), s.skip word.length)
      | none => s.fail (.expected "path member")
  | none => s.fail (.expected "path member")

/-- The step after an opening bracket: a wildcard or a 32-bit index. -/
def indexStep (s : Source) : Except SyntaxError (PathItem × Source) := do
  let s := s.skipBlanks
  let (item, t) ←
    match s.eat '*' with
    | some t => Except.ok (PathItem.anyIndex, t)
    | none =>
      let digits := s.rest.takeWhile Text.isDigit
      if digits.isEmpty then s.fail (.expected "array index")
      else if Text.digitsValue digits < 2 ^ 32 then
        .ok (.index (UInt32.ofNat (Text.digitsValue digits)), s.skip digits.length)
      else s.fail .indexOutOfRange
  let t ← t.expect ']' "']'"
  .ok (item, t)

/-- The end of a path whose last step is `previous`. -/
def endOfPath (previous : Option PathItem) (s : Source) :
    Except SyntaxError (List PathItem × Source) :=
  if previous = some .descendants then s.fail .lastDescendants else .ok ([], s)

/-- The steps that follow `previous`, at most `bound` of them. -/
def segments : Nat → Option PathItem → Source → Except SyntaxError (List PathItem × Source)
  | 0, previous, s => endOfPath previous s
  | bound + 1, previous, s =>
    let andThen (step : Except SyntaxError (PathItem × Source)) :
        Except SyntaxError (List PathItem × Source) := do
      let (item, s) ← step
      let (items, s) ← segments bound (some item) s
      .ok (item :: items, s)
    match s.eatText "**" with
    | some t =>
      if previous = some .descendants then s.fail .repeatedDescendants
      else andThen (.ok (.descendants, t))
    | none =>
      match s.peek with
      | some '.' => andThen (memberStep (s.skip 1))
      | some '[' => andThen (indexStep (s.skip 1))
      | _ => endOfPath previous s

/-- The path that a text consists of, blanks around it apart. -/
def rootedPath (text : List Char) : Except SyntaxError (List PathItem) :=
  let s := (Source.ofList text).skipBlanks
  match s.eat '$' with
  | none => s.fail .unrootedPath
  | some s => do
    let (path, s) ← segments text.length none s
    let s := s.skipBlanks
    if s.rest.isEmpty then .ok path else s.fail .unexpectedPathInput

end DocWire
