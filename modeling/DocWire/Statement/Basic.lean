import DocWire.Expr.Source
import DocWire.Message.Request
import DocWire.Text.Blank

/-!
# Statements

A statement is checked when it is put together, before anything is sent.

* `StatementError`   what can be wrong with it;
* `sqlStatement`     a statement in SQL with its arguments.
-/

namespace DocWire

inductive StatementError
  /-- an expression in it cannot be compiled -/
  | expression (error : SyntaxError)
  | empty
  /-- too few values for the positional placeholders; the first without one -/
  | missingPositional (index : Nat)
  | missingNamed (name : String)
  | unusedName (name : String)
deriving DecidableEq

def StatementError.message : StatementError → String
  | expression e => "syntax error at position " ++ toString e.position ++ ": " ++ e.message
  | empty => "empty statement"
  | missingPositional index => "no value bound for placeholder '?" ++ toString index ++ "'"
  | missingNamed name => "no value bound for placeholder '" ++ name ++ "'"
  | unusedName name => "placeholder '" ++ name ++ "' is not used by the statement"

/-- The request of a statement in SQL. One that is blank is not sent. -/
def sqlStatement (text : String) (args : List AnyValue) : Except StatementError Request :=
  if (Text.trim text.toList).isEmpty then .error .empty else .ok (.sql text args)

end DocWire
