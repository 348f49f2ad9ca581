import DocWire.Message.Scalar

/-!
# Notices

What the server tells beside its answers. A notice is local, for the statement being executed, or
global, for the connection.

* `Notice`, `ServerNotice`   the notices;
* `ServerNotice.ofBytes`     their message, which holds the notice as a message of its own.
-/

namespace DocWire

open Protobuf

/-- How grave a warning is. -/
inductive WarningLevel
  | note
  | warning
  | error
deriving DecidableEq, Repr

def WarningLevel.name : WarningLevel → String
  | note => "Note"
  | warning => "Warning"
  | error => "Error"

def WarningLevel.ofNumber? : Int → Option WarningLevel
  | 1 => some note
  | 2 => some warning
  | 3 => some error
  | _ => none

/-- A warning about a statement. -/
structure Warning where
  level : WarningLevel
  code : UInt32
  message : String
deriving DecidableEq

/-- What has changed in the state of the session. -/
inductive StateParameter
  | currentSchema
  | accountExpired
  | generatedInsertId
  | rowsAffected
  | rowsFound
  | rowsMatched
  | trxCommitted
  | trxRolledBack
  | producedMessage
  | clientIdAssigned
  | generatedDocumentIds
deriving DecidableEq, Repr

namespace StateParameter

def number : StateParameter → Nat
  | currentSchema => 1
  | accountExpired => 2
  | generatedInsertId => 3
  | rowsAffected => 4
  | rowsFound => 5
  | rowsMatched => 6
  | trxCommitted => 7
  | trxRolledBack => 9
  | producedMessage => 10
  | clientIdAssigned => 11
  | generatedDocumentIds => 12

def ofNumber? : Int → Option StateParameter
  | 1 => some currentSchema
  | 2 => some accountExpired
  | 3 => some generatedInsertId
  | 4 => some rowsAffected
  | 5 => some rowsFound
  | 6 => some rowsMatched
  | 7 => some trxCommitted
  | 9 => some trxRolledBack
  | 10 => some producedMessage
  | 11 => some clientIdAssigned
  | 12 => some generatedDocumentIds
  | _ => none

theorem ofNumber?_number (p : StateParameter) : ofNumber? p.number = some p := by
  cases p <;> rfl

end StateParameter

inductive Notice
  | warning (warning : Warning)
  | variable (name : String) (value : Option Scalar)
  | state (parameter : StateParameter) (values : List Scalar)
  /-- a notice of a type that is not known -/
  | other (type : UInt32)
deriving DecidableEq

/-- A notice and whether it is for the statement being executed. -/
structure ServerNotice where
  isLocal : Bool
  notice : Notice
deriving DecidableEq

namespace Notice

def warningType : UInt32 := 1

def variableType : UInt32 := 2

def stateType : UInt32 := 3

/-- the warning of a record; a level that is not known is a plain warning -/
def warningOf? (r : Record) : Option Warning := do
  let level ← r.enum? 1
  let code ← r.uint32? 2
  let message ← r.string? 3
  let level := (level.bind fun n => WarningLevel.ofNumber? n.toInt).getD .warning
  pure ⟨level, code.getD 0, message.getD ""⟩

def variableOf? (r : Record) : Option (String × Option ScalarMessage) := do
  let name ← r.string? 1
  match (← r.record? 2) with
  | none => pure (name.getD "", none)
  | some inner => pure (name.getD "", some (← ScalarMessage.ofRecord? inner))

/-- the number of the parameter of a record and its values -/
def stateOf? (r : Record) : Option (Int32 × List ScalarMessage) := do
  let parameter ← r.enum? 1
  let values ← (← r.records? 2).mapM ScalarMessage.ofRecord?
  pure (parameter.getD 1, values)

def ofBytes (type : UInt32) (bytes : List UInt8) : Except ConnectionError Notice :=
  let record? := Record.ofBytes? bytes
  if type = warningType then (readable (record?.bind warningOf?)).map .warning
  else if type = variableType then do
    let (name, value) ← readable (record?.bind variableOf?)
    match value with
    | none => .ok (.variable name none)
    | some m => .ok (.variable name (some (← m.toScalar)))
  else if type = stateType then do
    let (number, values) ← readable (record?.bind stateOf?)
    match StateParameter.ofNumber? number.toInt with
    | none => .error (.undecodable (.stateParameter number.toInt))
    | some parameter => .ok (.state parameter (← values.mapM ScalarMessage.toScalar))
  else .ok (.other type)

end Notice

def localScope : Int32 := 2

/-- the type, scope and message of the record of a notice -/
def ServerNotice.partsOf? (r : Record) : Option (UInt32 × Bool × List UInt8) := do
  let type ← r.uint32? 1
  let scope ← r.enum? 2
  let body ← r.bytes? 3
  pure (type.getD 0, scope == some localScope, body.getD [])

def ServerNotice.ofBytes (bytes : List UInt8) : Except ConnectionError ServerNotice := do
  let (type, isLocal, body) ← readable ((Record.ofBytes? bytes).bind partsOf?)
  .ok ⟨isLocal, ← Notice.ofBytes type body⟩

end DocWire
