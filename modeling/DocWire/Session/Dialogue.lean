import DocWire.Queue.Callers
import DocWire.Session.Connection

/-!
# Dialogues

A connection, its callers, and a server that follows a script: it answers the first frame that it
reads with the first answer of the script, and so on. A dialogue goes on until neither side has
anything left to do.

* `Answer`, `Dialogue`    the script, and both sides;
* `Dialogue.settle`       goes on until nothing is left to do;
* `Dialogue.start`        the handshake;
* `Dialogue.execute`, `Dialogue.ask`, `Dialogue.close` and so on   what the client does;
* `Dialogue.push`, `Dialogue.stop`                                 what the server does unasked.
-/

namespace DocWire

/-- What a server answers to a frame. -/
structure Answer where
  /-- the pieces that it sends, each of which is read at once -/
  chunks : List (List UInt8) := []
  /-- whether it ends the stream then -/
  stops : Bool := false
deriving DecidableEq

/-- Both sides of a connection. -/
structure Dialogue where
  connection : Connection
  callers : Callers := {}
  /-- the answers to the frames that the server has not read -/
  script : List Answer := []
  /-- the frames that the server has not read -/
  unread : List (List UInt8) := []
  /-- the frames that the server has read -/
  heard : List (List UInt8) := []
  /-- whether the server's end of the stream is there -/
  serverUp : Bool := true

namespace Dialogue

/-! ## Both sides -/

/-- Carries out an effect. What is written to a server that is not there is lost. -/
def carryOut (d : Dialogue) : Effect → Dialogue
  | .write request =>
    if d.serverUp then { d with unread := d.unread ++ [request.encode] } else d
  | .secure => d
  | .deliver delivery => { d with callers := d.callers.deliver delivery }

def follow (d : Dialogue) (step : Connection × List Effect) : Dialogue :=
  step.2.foldl carryOut { d with connection := step.1 }

def bring (d : Dialogue) (arrival : Arrival) : Dialogue :=
  d.follow (d.connection.receive arrival)

/-- The server ends the stream. The frames that it has not read are lost. -/
def stop (d : Dialogue) : Dialogue :=
  if d.serverUp then { d with unread := [], serverUp := false }.bring (.stopped .ended) else d

def send (d : Dialogue) (chunks : List (List UInt8)) : Dialogue :=
  if d.serverUp then chunks.foldl (fun d chunk => d.bring (.bytes chunk)) d else d

def answer (d : Dialogue) (a : Answer) : Dialogue :=
  let d := d.send a.chunks
  if a.stops then d.stop else d

/-- The server reads frames and answers them by a script until there is nothing left to read. A
script that has ended answers nothing. -/
def followScript : List Answer → Dialogue → Dialogue
  | [], d => { d with script := [], unread := [], heard := d.heard ++ d.unread }
  | a :: rest, d =>
    match d.unread with
    | [] => { d with script := a :: rest }
    | frame :: unread =>
      followScript rest ({ d with unread, heard := d.heard ++ [frame] }.answer a)

/-- Goes on until nothing is left to do. -/
def settle (d : Dialogue) : Dialogue := followScript d.script d

/-- The frames that the server has read since the last time. -/
def takeHeard (d : Dialogue) : List (List UInt8) × Dialogue := (d.heard, { d with heard := [] })

/-! ## The handshake -/

/-- The handshake with a server that sends a greeting unasked. -/
def start (params : ConnectionParams)
    (upgrade : Option (Except ConnectionError.StreamFailure Unit)) (greeting : List (List UInt8))
    (script : List Answer) : Dialogue :=
  let begun := Connection.start params upgrade
  let d : Dialogue := { connection := begun.1, script }
  ((d.follow begun).send greeting).settle

/-! ## What the client does -/

/-- Executes a statement. Gives the number of its execution. -/
def execute (d : Dialogue) (s : Session) (request : Request) :
    Except ConnectionError Nat × Dialogue :=
  match d.connection.submit s .newStatement request with
  | .error e => (.error e, d)
  | .ok (id, step) =>
    let d := { d with callers := d.callers.holdExecution (some id) }
    (.ok (d.callers.executions.length - 1), (d.follow step).settle)

/-- The reply to an operation that the client has just held last, and the dialogue without it. -/
def lastReply (d : Dialogue) : Awaited (Except ConnectionError Reply) × Dialogue :=
  let n := d.callers.replies.length - 1
  let (reply, callers) := d.callers.takeReply n
  let d := { d with callers }
  match reply with
  | some (.ready (.reply result)) => (.ready result, d)
  | some .pending => (.pending, { d with callers := d.callers.abandonReply n })
  | _ => (.ready (.error .closed), d)

/-- Asks the server for something that one message answers. If the answer does not come, it is not
waited for. -/
def ask (d : Dialogue) (s : Session) (request : Request) :
    Awaited (Except ConnectionError Reply) × Dialogue :=
  match d.connection.submit s .single request with
  | .error e => (.ready (.error e), d)
  | .ok (id, step) =>
    let d := { d with callers := d.callers.holdReply (some id) }
    (d.follow step).settle.lastReply

/-- Resets the state of the session on the server, but not the authentication. -/
def reset (d : Dialogue) (s : Session) : Awaited (Except ConnectionError Unit) × Dialogue :=
  let (reply, d) := d.ask s (.sessionReset true)
  (reply.map (·.bind Reply.expectOk), d)

def capabilities (d : Dialogue) (s : Session) :
    Awaited (Except ConnectionError (List (String × AnyValue))) × Dialogue :=
  let (reply, d) := d.ask s .capabilitiesGet
  (reply.map (·.bind Reply.expectCapabilities), d)

/-- Closes the session. It is gone afterwards, whether the server agrees or not. -/
def close (d : Dialogue) (s : Session) : Awaited (Except ConnectionError Unit) × Dialogue :=
  match d.connection.close s with
  | (.error e, step) => (.ready (.error e), (d.follow step).settle)
  | (.ok none, step) => (.ready (.ok ()), (d.follow step).settle)
  | (.ok (some id), step) =>
    let d := { d with callers := d.callers.holdReply (some id) }
    let (reply, d) := (d.follow step).settle.lastReply
    let d := (d.follow d.connection.abandonClose).settle
    (reply.map (·.bind Reply.expectOk), d)

def subscribe (d : Dialogue) (s : Session) : Dialogue :=
  { d with connection := d.connection.subscribe s, callers := d.callers.holdSubscription }

def drop (d : Dialogue) (s : Session) : Dialogue := (d.follow (d.connection.drop s)).settle

/-! ## What the server does unasked -/

def push (d : Dialogue) (chunks : List (List UInt8)) : Dialogue := (d.send chunks).settle

end Dialogue

end DocWire
