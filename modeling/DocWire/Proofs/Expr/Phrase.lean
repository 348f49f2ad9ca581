import DocWire.Proofs.Expr.Precedence

/-!
# Phrases

The surface syntax of expressions on documents, with every operand of an operator in parentheses of
its own.  A phrase is put together from the same parts as a tree; which text it is and which tree it
stands for is said in one go, part by part, as a piece.

* `Piece`       a text with what it stands for, by the number of `?` before it;
* `Phrase`      the syntax: literals, fields, placeholders, calls, operators, predicates, casts,
                intervals, objects and arrays;
* `Phrase.piece`   its text and its tree;
* `Phrase.text`, `Phrase.expr`   the same for a phrase that stands alone.
-/

namespace DocWire

open Text

/-! ## Pieces -/

/-- A text with what it stands for.  The positional placeholders in it are numbered on from those
before it, so what it stands for depends on their number. -/
structure Piece (α : Type) where
  chars : List Char
  /-- the number of positional placeholders in it -/
  marks : Nat := 0
  value : Nat → α

namespace Piece

variable {α β : Type}

/-- a piece without positional placeholders -/
def plain (chars : List Char) (x : α) : Piece α where
  chars := chars
  value := fun _ => x

/-- a piece in parentheses -/
def paren (p : Piece α) : Piece α := { p with chars := '(' :: (p.chars ++ [')']) }

/-- a piece as a part of something, with a text before it and a text behind it -/
def within (before behind : List Char) (f : α → β) (p : Piece α) : Piece β where
  chars := before ++ p.chars ++ behind
  marks := p.marks
  value := fun m => f (p.value m)

/-- two pieces as parts of something, with a text between them -/
def pair {γ : Type} (between : List Char) (f : α → β → γ) (p : Piece α) (q : Piece β) :
    Piece γ where
  chars := p.chars ++ between ++ q.chars
  marks := p.marks + q.marks
  value := fun m => f (p.value m) (q.value (m + p.marks))

/-- pieces in a row, with commas between them -/
def row : List (Piece α) → Piece (List α)
  | [] => plain [] []
  | [p] => p.within [] [] fun x => [x]
  | p :: rest => pair [',', ' '] (fun x xs => x :: xs) p (row rest)

end Piece

/-- a word between blanks -/
def spaced (word : List Char) : List Char := ' ' :: (word ++ [' '])

/-! ## Parts -/

/-- The literals that are keywords. -/
inductive KeywordLiteral
  | null
  | true
  | false

namespace KeywordLiteral

def chars : KeywordLiteral → List Char
  | null => ['N', 'U', 'L', 'L']
  | true => ['T', 'R', 'U', 'E']
  | false => ['F', 'A', 'L', 'S', 'E']

def scalar : KeywordLiteral → Scalar
  | null => .null
  | true => .bool Bool.true
  | false => .bool Bool.false

end KeywordLiteral

/-- An integer that a double can hold exactly. -/
structure SafeInteger where
  value : Nat
  safe : value ≤ maxSafeInteger

/-- A text without backslashes. -/
structure PlainText where
  chars : List Char
  plain : '\\' ∉ chars

/-- a text between double quotes, those inside it doubled -/
def PlainText.quoted (t : PlainText) : List Char :=
  '"' :: (t.chars.flatMap (fun c => if c = '"' then ['"', '"'] else [c]) ++ ['"'])

/-- A step of a path whose members have identifier-shaped names. -/
inductive PathStep
  | member (name : Word)
  | anyMember
  | index (n : UInt32)
  | anyIndex
  | descendants

namespace PathStep

def chars : PathStep → List Char
  | member name => '.' :: name.chars
  | anyMember => ['.', '*']
  | index n => '[' :: (Number.digitsOf n.toNat ++ [']'])
  | anyIndex => ['[', '*', ']']
  | descendants => ['*', '*']

def item : PathStep → PathItem
  | member name => .member name.text
  | anyMember => .anyMember
  | index n => .index n
  | anyIndex => .anyIndex
  | descendants => .descendants

/-- Whether a step may follow another one: a `**` neither follows a `**` nor a `.*`. -/
def MayFollow : PathStep → PathStep → Prop
  | anyMember, descendants | descendants, descendants => False
  | _, _ => True

end PathStep

/-- A path from the root of the document. -/
structure RootedPath where
  steps : List PathStep
  connected : steps.IsChain PathStep.MayFollow
  /-- a path does not end in `**` -/
  ended : steps.getLast? ≠ some .descendants

def RootedPath.chars (p : RootedPath) : List Char := '$' :: p.steps.flatMap PathStep.chars

/-- The name of a value that is bound by name. -/
structure PlaceholderName where
  chars : List Char
  some : chars ≠ []
  proper : ∀ c ∈ chars, isAlphanumeric c = true ∨ c = '_'

/-- The name of a function.  A name without a schema is not that of the cast. -/
inductive FunctionName
  | unqualified (name : Name) (notCast : sameWord name.chars ['c', 'a', 's', 't'] = false)
  | qualified (schema name : Name)

namespace FunctionName

def chars : FunctionName → List Char
  | unqualified name _ => name.chars
  | qualified schema name => schema.chars ++ '.' :: name.chars

def call (args : List Expr) : FunctionName → Expr
  | unqualified name _ => .call none name.text args
  | qualified schema name => .call (some schema.text) name.text args

end FunctionName

/-- The unary operators. -/
inductive UnaryOp
  | bang
  | tilde
  | plus
  | minus
  | not

namespace UnaryOp

def chars : UnaryOp → List Char
  | bang => ['!']
  | tilde => ['~']
  | plus => ['+']
  | minus => ['-']
  | not => ['N', 'O', 'T', ' ']

def name : UnaryOp → String
  | bang => "!"
  | tilde => "~"
  | plus => "sign_plus"
  | minus => "sign_minus"
  | not => "not"

end UnaryOp

/-- The predicates of two operands that are words and can be negated. -/
inductive WordPredicate
  | like
  | regexp
  | overlaps

namespace WordPredicate

def chars : WordPredicate → List Char
  | like => ['L', 'I', 'K', 'E']
  | regexp => ['R', 'E', 'G', 'E', 'X', 'P']
  | overlaps => ['O', 'V', 'E', 'R', 'L', 'A', 'P', 'S']

def name : WordPredicate → String
  | like => "like"
  | regexp => "regexp"
  | overlaps => "overlaps"

end WordPredicate

/-- a predicate with a `NOT` before it, or not -/
def negatedWord (negated : Bool) (word : List Char) : List Char :=
  if negated then ['N', 'O', 'T', ' '] ++ word else word

def negatedName (negated : Bool) (name : String) : String :=
  if negated then "not_" ++ name else name

/-- The types of a cast. -/
inductive CastType
  | signed (integer : Bool)
  | unsigned (integer : Bool)
  | char (length : Option DigitRun)
  | binary (length : Option DigitRun)
  /-- a precision, and a scale if there is a precision -/
  | decimal (parameters : Option (DigitRun × Option DigitRun))
  | time
  | datetime
  | date
  | json

namespace CastType

def chars : CastType → List Char
  | signed integer => "SIGNED".toList ++ if integer then " INTEGER".toList else []
  | unsigned integer => "UNSIGNED".toList ++ if integer then " INTEGER".toList else []
  | char length => "CHAR".toList ++ (length.map fun d => '(' :: (d.chars ++ [')'])).getD []
  | binary length => "BINARY".toList ++ (length.map fun d => '(' :: (d.chars ++ [')'])).getD []
  | decimal parameters =>
    "DECIMAL".toList ++ (parameters.map fun (precision, scale) =>
      '(' :: (precision.chars ++ (scale.map (',' :: ·.chars)).getD [] ++ [')'])).getD []
  | time => "TIME".toList
  | datetime => "DATETIME".toList
  | date => "DATE".toList
  | json => "JSON".toList

end CastType

/-- A unit of an interval. -/
structure IntervalUnit where
  name : String
  known : name ∈ intervalUnits

/-! ## Phrases -/

/-- The surface syntax of expressions on documents. -/
inductive Phrase
  | keyword (k : KeywordLiteral)
  | integer (n : SafeInteger)
  | negative (n : SafeInteger) (some : 0 < n.value)
  | string (t : PlainText)
  | field (path : RootedPath)
  | named (name : PlaceholderName)
  /-- a positional placeholder -/
  | mark
  /-- the call of a function; an argument that is missing here is a bare star -/
  | call (name : FunctionName) (args : List (Option Phrase))
  | unary (o : UnaryOp) (arg : Phrase)
  | binary (o : BinaryOp) (left right : Phrase)
  | isKeyword (negated : Bool) (subject : Phrase) (k : KeywordLiteral)
  | isIn (negated : Bool) (subject first : Phrase) (more : List Phrase)
  | predicate (negated : Bool) (word : WordPredicate) (left right : Phrase)
  | likeEscape (negated : Bool) (subject pattern escape : Phrase)
  | between (negated : Bool) (subject low high : Phrase)
  | cast (value : Phrase) (type : CastType)
  | interval (subtracted : Bool) (date amount : Phrase) (unit : IntervalUnit)
  | object (fields : List (PlainText × Phrase))
  | array (items : List Phrase)

/-- operators on pieces in parentheses -/
def Piece.operator (name : String) (between : List Char) (left right : Piece Expr) : Piece Expr :=
  pair between (fun l r => .op name [l, r]) left.paren right.paren

/-- a literal that is a text, such as the type of a cast -/
def wordLiteral (chars : List Char) : Expr := .literal (.bytes (Utf8.encode (String.ofList chars)))

namespace Phrase

mutual

/-- The text of a phrase, and the tree that it stands for. -/
def piece : Phrase → Piece Expr
  | keyword k => .plain k.chars (.literal k.scalar)
  | integer n => .plain (Number.digitsOf n.value) (.literal (.uint (UInt64.ofNat n.value)))
  | negative n _ =>
    .plain ('-' :: Number.digitsOf n.value) (.literal (.sint (Int64.ofInt (-n.value))))
  | string t => .plain t.quoted (.literal (.str (String.ofList t.chars)))
  | field path => .plain path.chars (.field (path.steps.map PathStep.item))
  | named name => .plain (':' :: name.chars) (.named (String.ofList name.chars))
  | mark => { chars := ['?'], marks := 1, value := .positional }
  | call name args => (Piece.row (argumentPieces args)).within (name.chars ++ ['(']) [')'] name.call
  | unary o arg => arg.piece.paren.within o.chars [] fun e => .unary o.name e
  | binary o left right => .operator o.name (spaced o.chars) left.piece right.piece
  | isKeyword negated subject k =>
    subject.piece.paren.within [] (" IS ".toList ++ negatedWord negated k.chars) fun e =>
      .op (if negated then "is_not" else "is") [e, .literal k.scalar]
  | isIn negated subject first more =>
    .pair (spaced (negatedWord negated "IN".toList)) (fun l items => .op (negatedName negated "in")
      (l :: items)) subject.piece.paren
      (Piece.row ((first.piece :: pieces more).map Piece.paren)).paren
  | predicate negated word left right =>
    .operator (negatedName negated word.name) (spaced (negatedWord negated word.chars))
      left.piece right.piece
  | likeEscape negated subject pattern escape =>
    .pair (spaced (negatedWord negated "LIKE".toList))
      (fun s rest => .op (negatedName negated "like") (s :: rest)) subject.piece.paren
      (.pair (spaced "ESCAPE".toList) (fun p e => [p, e]) pattern.piece.paren escape.piece.paren)
  | between negated subject low high =>
    .pair (spaced (negatedWord negated "BETWEEN".toList))
      (fun s rest => .op (negatedName negated "between") (s :: rest)) subject.piece.paren
      (.pair (spaced "AND".toList) (fun l h => [l, h]) low.piece.paren high.piece.paren)
  | cast value type =>
    value.piece.paren.within "CAST(".toList (" AS ".toList ++ type.chars ++ [')']) fun e =>
      .op "cast" [e, wordLiteral type.chars]
  | interval subtracted date amount unit =>
    (Piece.pair (if subtracted then " - INTERVAL ".toList else " + INTERVAL ".toList)
      (fun d a => .op (if subtracted then "date_sub" else "date_add")
        [d, a, wordLiteral unit.name.toList])
      date.piece.paren amount.piece.paren).within [] (' ' :: unit.name.toList) id
  | object fields => (Piece.row (fieldPieces fields)).within ['\x7b'] ['\x7d'] .object
  | array items => (Piece.row (pieces items)).within ['['] [']'] .array

def pieces : List Phrase → List (Piece Expr)
  | [] => []
  | p :: rest => p.piece :: pieces rest

def argumentPieces : List (Option Phrase) → List (Piece Expr)
  | [] => []
  | none :: rest => .plain ['*'] (.op "*" []) :: argumentPieces rest
  | some p :: rest => p.piece :: argumentPieces rest

def fieldPieces : List (PlainText × Phrase) → List (Piece (String × Expr))
  | [] => []
  | (key, p) :: rest =>
    p.piece.within (key.quoted ++ [':', ' ']) [] (fun e => (String.ofList key.chars, e))
      :: fieldPieces rest

end

def text (p : Phrase) : String := String.ofList p.piece.chars

/-- The tree that a phrase stands for: its positional placeholders are numbered from zero. -/
def expr (p : Phrase) : Expr := p.piece.value 0

/-- The operands of an operator are in parentheses, and placeholders are numbered across them. -/
example : (binary .plus mark (unary .not mark)).text = "(?) + (NOT (?))" ∧
    (binary .plus mark (unary .not mark)).expr
      = .op "+" [.positional 0, .unary "not" (.positional 1)] := ⟨rfl, rfl⟩

end Phrase

end DocWire
