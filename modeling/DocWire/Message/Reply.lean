import DocWire.Frame
import DocWire.Message.Any
import DocWire.Message.Notice
import DocWire.ResultSet.Column

/-!
# What the server sends

* `Reply`          the messages of the server;
* `Reply.name`     their names;
* `Reply.decode`   the message of a frame. A tag that is not known is no error.
-/

namespace DocWire

open Protobuf

/-- A message of the server. -/
inductive Reply
  | ok (info : Option String)
  | error (error : ServerError)
  | capabilities (values : List (String × AnyValue))
  | authenticateContinue (challenge : List UInt8)
  | authenticateOk (data : List UInt8)
  | notice (notice : ServerNotice)
  | column (column : Column)
  | row (fields : List (List UInt8))
  | fetchDone
  | fetchSuspended
  | fetchDoneMoreResultsets
  | fetchDoneMoreOutParams
  | executeOk
  | unknown (tag : UInt8)

namespace Reply

def name : Reply → String
  | ok _ => "Ok"
  | error _ => "Error"
  | capabilities _ => "Capabilities"
  | authenticateContinue _ => "AuthenticateContinue"
  | authenticateOk _ => "AuthenticateOk"
  | notice _ => "Notice"
  | column _ => "ColumnMetaData"
  | row _ => "Row"
  | fetchDone => "FetchDone"
  | fetchSuspended => "FetchSuspended"
  | fetchDoneMoreResultsets => "FetchDoneMoreResultsets"
  | fetchDoneMoreOutParams => "FetchDoneMoreOutParams"
  | executeOk => "StmtExecuteOk"
  | unknown _ => "Unknown"

/-- the error of a record; only the fatal severity makes it fatal -/
def errorOf? (r : Record) : Option ServerError := do
  let severity ← r.enum? 1
  let code ← r.uint32? 2
  let text ← r.string? 3
  let sqlState ← r.string? 4
  pure ⟨code.getD 0, sqlState.getD "", text.getD "", severity == some 1⟩

def capabilityOf? (r : Record) : Option (String × Option AnyMessage) := do
  let name ← r.string? 1
  match (← r.record? 2) with
  | none => pure (name.getD "", none)
  | some inner => pure (name.getD "", some (← AnyMessage.ofRecord? inner))

def capabilitiesOf? (r : Record) : Option (List (String × Option AnyMessage)) := do
  (← r.records? 1).mapM capabilityOf?

/-- a capability with its value, null if it has none -/
def capability : String × Option AnyMessage → Except ConnectionError (String × AnyValue)
  | (name, none) => .ok (name, .scalar .null)
  | (name, some m) => m.toAny.map fun value => (name, value)

def decode (frame : Frame) : Except ConnectionError Reply :=
  let whole {α : Type} (read : Record → Option α) : Except ConnectionError α :=
    readable ((Record.ofBytes? frame.payload).bind read)
  match frame.tag.toNat with
  | 0 => (whole (·.string? 1)).map ok
  | 1 => (whole errorOf?).map error
  | 2 => do
    let values ← whole capabilitiesOf?
    .ok (capabilities (← values.mapM capability))
  | 3 => (whole (·.bytes? 1)).map fun data => authenticateContinue (data.getD [])
  | 4 => (whole (·.bytes? 1)).map fun data => authenticateOk (data.getD [])
  | 11 => (ServerNotice.ofBytes frame.payload).map notice
  | 12 => (Column.ofBytes frame.payload).map column
  | 13 => (whole (·.all? Record.pickBytes 1)).map row
  | 14 => .ok fetchDone
  | 15 => .ok fetchSuspended
  | 16 => .ok fetchDoneMoreResultsets
  | 17 => .ok executeOk
  | 18 => .ok fetchDoneMoreOutParams
  | _ => .ok (unknown frame.tag)

end Reply

end DocWire
