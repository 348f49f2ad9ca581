import DocWire.Message.Notice

/-!
# Outcomes

What a statement reports beside its rows. The server tells it piece by piece, in the local notices
of the statement.

* `Outcome`         what is known so far;
* `Outcome.apply`   takes in a notice, `Outcome.ofNotices` many of them;
* `Outcome.line`    the summary that is shown to a person.
-/

namespace DocWire

/-- The value as a number that is not negative, if it is one. -/
def Scalar.asCount : Scalar → Option UInt64
  | uint n => some n
  | sint i => if 0 ≤ i.toInt then some (UInt64.ofNat i.toInt.toNat) else none
  | _ => none

/-- The value as a text, if it holds one. -/
def Scalar.asText : Scalar → Option String
  | str t | exact t => some t
  | bytes b => some (Text.Utf8.decodeLossy b)
  | _ => none

/-- What a statement reports beside its rows. -/
structure Outcome where
  warnings : List Warning := []
  rowsAffected : Option UInt64 := none
  lastInsertId : Option UInt64 := none
  generatedIds : List String := []
  rowsFound : Option UInt64 := none
  rowsMatched : Option UInt64 := none
  messages : List String := []
  currentSchema : Option String := none
  /-- the words with which the server ended the statement, if it used any -/
  info : Option String := none
deriving DecidableEq

namespace Outcome

/-- Takes in what has changed in the session. A report of a single value replaces the one before
it, also by nothing; reports of many values add to those before them. -/
def applyState (o : Outcome) (parameter : StateParameter) (values : List Scalar) : Outcome :=
  let count := values.head?.bind Scalar.asCount
  let texts := values.filterMap Scalar.asText
  match parameter with
  | .rowsAffected => { o with rowsAffected := count }
  | .rowsFound => { o with rowsFound := count }
  | .rowsMatched => { o with rowsMatched := count }
  | .generatedInsertId => { o with lastInsertId := count }
  | .generatedDocumentIds => { o with generatedIds := o.generatedIds ++ texts }
  | .producedMessage => { o with messages := o.messages ++ texts }
  | .currentSchema => { o with currentSchema := values.head?.bind Scalar.asText }
  | .accountExpired | .trxCommitted | .trxRolledBack | .clientIdAssigned => o

def apply (o : Outcome) : Notice → Outcome
  | .warning w => { o with warnings := o.warnings ++ [w] }
  | .state parameter values => o.applyState parameter values
  | .variable _ _ | .other _ => o

def ofNotices (notices : List Notice) : Outcome := notices.foldl apply {}

/-- the ending of a noun of which there are `n` -/
def plural (n : Nat) : String := if n = 1 then "" else "s"

/-- The summary of a statement that has returned a number of rows. -/
def line (o : Outcome) (rows : Nat) : String :=
  let inSet := toString rows ++ " row" ++ plural rows ++ " in set"
  let head :=
    match o.rowsAffected with
    | some n =>
      if rows = 0 then "Query OK, " ++ toString n.toNat ++ " row" ++ plural n.toNat ++ " affected"
      else inSet
    | none => inSet
  let inserted :=
    match o.lastInsertId with
    | some id => if id = 0 then "" else ", last insert id " ++ toString id.toNat
    | none => ""
  let warning (w : Warning) : String :=
    "\n" ++ w.level.name ++ " (" ++ toString w.code.toNat ++ "): " ++ w.message
  head ++ inserted ++ String.join (o.generatedIds.map ("\ngenerated id: " ++ ·))
    ++ String.join (o.warnings.map warning)

theorem ofNotices_nil : ofNotices [] = {} := rfl

theorem ofNotices_concat (notices : List Notice) (n : Notice) :
    ofNotices (notices ++ [n]) = (ofNotices notices).apply n := by
  simp [ofNotices]

/-- A notice of a type that is not known reports nothing. -/
theorem apply_other (o : Outcome) (type : UInt32) : o.apply (.other type) = o := rfl

theorem info_apply (o : Outcome) (n : Notice) : (o.apply n).info = o.info := by
  cases n with
  | state parameter values => cases parameter <;> rfl
  | _ => rfl

end Outcome

end DocWire
