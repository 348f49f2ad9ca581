import DocWire.Expr.Basic
import DocWire.Text.Blank

/-!
# Commands

A line that is typed at the prompt is a statement in SQL, or a command if it begins with a point.

* `Command`           the commands;
* `Command.ofLine`    the command of a line;
* `CommandError`      what can be wrong with a line.
-/

namespace DocWire

inductive Command
  | exit
  | mode (mode : Mode)
  /-- compile an expression and show it -/
  | parse (text : String)
  | find (target : String) (filter : Option String)
  | reset
  | sql (text : String)
deriving DecidableEq

inductive CommandError
  | unrecognized (command : String)
  | invalidArguments (command reason : String)
  | empty
  /-- the line could not be read -/
  | io (text : String)
deriving DecidableEq

def CommandError.message : CommandError → String
  | unrecognized command => "unrecognized command '" ++ command ++ "'"
  | invalidArguments command reason => "invalid '" ++ command ++ "' command, " ++ reason
  | empty => "no command provided"
  | io text => "failed to read input: " ++ text

namespace Command

/-- The text before the first blank, and the text behind it without the blanks around it. -/
def splitWord (cs : List Char) : List Char × List Char :=
  (cs.takeWhile fun c => !Text.isBlank c,
    Text.trim ((cs.dropWhile fun c => !Text.isBlank c).drop 1))

def dropSemicolons (cs : List Char) : List Char := (cs.reverse.dropWhile (· == ';')).reverse

def ofWord (word : String) (rest : List Char) : Except CommandError Command :=
  let invalid (reason : String) : Except CommandError Command :=
    .error (.invalidArguments word reason)
  let argument := String.ofList rest
  match word with
  | ".exit" | ".quit" => .ok exit
  | ".reset" => .ok reset
  | ".mode" =>
    match argument with
    | "doc" | "document" => .ok (mode .document)
    | "table" | "sql" => .ok (mode .table)
    | _ => invalid "expected 'doc' or 'table'. Example: .mode table"
  | ".parse" =>
    if rest.isEmpty then invalid "requires an expression. Example: .parse a > 1"
    else .ok (parse argument)
  | ".find" =>
    let (target, filter) := splitWord rest
    if target.isEmpty then invalid "requires a collection name. Example: .find people age > 21"
    else
      let filter := if filter.isEmpty then none else some (String.ofList filter)
      .ok (find (String.ofList target) filter)
  | other => .error (.unrecognized other)

def ofLine (line : String) : Except CommandError Command :=
  match Text.trim line.toList with
  | [] => .error .empty
  | '.' :: rest =>
    let (word, rest) := splitWord ('.' :: rest)
    ofWord (String.ofList word) rest
  | statement => .ok (sql (String.ofList (dropSemicolons statement)))

theorem splitWord_nil : splitWord [] = ([], []) := rfl

/-- The word that is split off has no blank in it. -/
theorem isBlank_of_mem_splitWord {cs : List Char} {c : Char} (h : c ∈ (splitWord cs).1) :
    Text.isBlank c = false := by
  simpa using List.all_eq_true.mp List.all_takeWhile c h

end Command

end DocWire
