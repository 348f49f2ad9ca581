import DocWire.ResultSet.Execution
import DocWire.Session.Basic
import DocWire.Session.Params

/-!
# Connections

From the first byte to the last: the client secures the stream if it must, asks what the server
can do, authenticates, and then has a session until it closes it.

* `Stage`, `Connection`                      how far it has come;
* `Stage.start`, `Stage.receive`             the first step, and what the stream brings;
* `Connection.handshake`                     what has come of the handshake;
* `Connection.submit`, `Connection.close`, `Connection.drop`   what the client does.
-/

namespace DocWire

open ConnectionError (StreamFailure)

/-! ## Answers -/

namespace Assembler

/-- The answer to a request: the first of the next `bound` messages that is no notice. An error of
the server is none. Gives what is left behind it as well. -/
def answerWithin : Nat → Assembler → Except ConnectionError (Option Reply) × Assembler
  | 0, a => (.ok none, a)
  | bound + 1, a =>
    match a.next with
    | .error e => (.error e, a)
    | .ok none => (.ok none, a)
    | .ok (some (frame, a)) =>
      match Reply.decode frame with
      | .error e => (.error e, a)
      | .ok (.notice _) => answerWithin bound a
      | .ok (.error e) => (.error (.server e), a)
      | .ok reply => (.ok (some reply), a)

/-- The answer to a request, if it is there. -/
def answer (a : Assembler) : Except ConnectionError (Option Reply) × Assembler :=
  a.answerWithin a.pending

end Assembler

namespace Reply

/-- The message has to be the plain assent. -/
def expectOk : Reply → Except ConnectionError Unit
  | ok _ => .ok ()
  | other => .error (.violation (.wrongReply "Ok" other.name))

/-- The message has to tell what the server can do. -/
def expectCapabilities : Reply → Except ConnectionError (List (String × AnyValue))
  | capabilities values => .ok values
  | other => .error (.violation (.wrongReply "capabilities" other.name))

end Reply

/-! ## Progress -/

/-- How far a connection has come. -/
inductive Stage
  /-- the server was asked to let the stream be secured, which will come to the given end -/
  | askingSecurity (assembler : Assembler) (upgrade : Except StreamFailure Unit)
  /-- the server was asked what it can do -/
  | askingCapabilities (assembler : Assembler) (secure : Bool)
  /-- the authentication is the operation of the number -/
  | authenticating (session : Session) (operation : Nat)
  | established (session : Session)
  /-- the server was told that the connection ends, by the operation of the number -/
  | closing (session : Session) (operation : Nat)
  /-- the handshake has failed -/
  | failed (error : ConnectionError)
  /-- the client has closed or dropped the session -/
  | gone

structure Connection where
  params : ConnectionParams
  stage : Stage

/-- What effects give to the caller of an operation in the end. -/
def settlement? (operation : Nat) (effects : List Effect) : Option Settlement :=
  effects.findSome? fun
    | .deliver (.settled id s) => if id = operation then some s else none
    | _ => none

namespace Stage

def securityRequest : Request := .capabilitiesSet [("tls", .scalar (.bool true))]

/-- the name under which a server lists the mechanisms that it offers -/
def mechanismsCapability : String := "authentication.mechanisms"

def offered (capabilities : List (String × AnyValue)) : List String :=
  ((capabilities.lookup mechanismsCapability).map AnyValue.strings).getD []

def newAssembler (params : ConnectionParams) : Assembler := { limit := params.frameLimit }

def askCapabilities (params : ConnectionParams) (secure : Bool) : Stage × List Effect :=
  (askingCapabilities (newAssembler params) secure, [.write .capabilitiesGet])

/-- The first step. A stream that has to be secured and cannot be is not used at all. -/
def start (params : ConnectionParams) (upgrade : Option (Except StreamFailure Unit)) :
    Stage × List Effect :=
  if params.tls then
    match upgrade with
    | none => (failed (.transport "TLS is required but no TLS implementation was given"), [])
    | some upgrade =>
      (askingSecurity (newAssembler params) upgrade, [.write securityRequest])
  else askCapabilities params false

/-! ## What the stream brings -/

/-- What goes wrong before the stream is secured is taken for a refusal. -/
def refusal (e : ConnectionError) : ConnectionError :=
  .transport ("server refused TLS: " ++ e.message)

/-- The server has said something about securing the stream. Once the stream is secured, what has
come before is forgotten. -/
def afterSecurity (params : ConnectionParams) (a : Assembler)
    (upgrade : Except StreamFailure Unit) : Stage × List Effect :=
  match a.answer with
  | (.error e, _) => (failed (refusal e), [])
  | (.ok none, a) => (askingSecurity a upgrade, [])
  | (.ok (some _), _) =>
    match upgrade with
    | .error f => (failed (.ofStreamFailure f), [])
    | .ok _ =>
      let (stage, effects) := askCapabilities params true
      (stage, .secure :: effects)

/-- The session has made a step: the handshake ends with its authentication. -/
def afterAuthentication (s : Session) (operation : Nat) (effects : List Effect) :
    Stage × List Effect :=
  match settlement? operation effects with
  | none => (authenticating s operation, effects)
  | some settlement =>
    match settlement.error? with
    | none => (established s, effects)
    | some e => (failed e, effects ++ (s.shutdown .closed).2)

/-- The session of a stream on which the authentication has begun, and its operation. -/
def beginAuthentication (params : ConnectionParams) (a : Assembler) (secure : Bool)
    (capabilities : List (String × AnyValue)) :
    Except ConnectionError (Nat × Session × List Effect) := do
  let mechanism ← Mechanism.choose params.mechanism (offered capabilities) secure
  let (request, authentication) :=
    Authentication.start { mechanism, credentials := params.credentials }
  let session : Session := { assembler := a, mechanism, secure, capabilities }
  session.submit (.authentication authentication) (← request)

/-- The server has told what it can do: the authentication begins, and what has come behind the
answer is routed. -/
def authenticate (params : ConnectionParams) (a : Assembler) (secure : Bool)
    (capabilities : List (String × AnyValue)) : Stage × List Effect :=
  match beginAuthentication params a secure capabilities with
  | .error e => (failed e, [])
  | .ok (operation, s, effects) =>
    let (s, more) := s.pump
    afterAuthentication s operation (effects ++ more)

/-- The server has said something about what it can do. -/
def afterCapabilities (params : ConnectionParams) (a : Assembler) (secure : Bool) :
    Stage × List Effect :=
  match a.answer with
  | (.error e, _) => (failed e, [])
  | (.ok none, a) => (askingCapabilities a secure, [])
  | (.ok (some reply), a) =>
    match reply.expectCapabilities with
    | .error e => (failed e, [])
    | .ok capabilities => authenticate params a secure capabilities

/-- The session has made a step: it is over once its last request is answered. -/
def afterClose (s : Session) (operation : Nat) (effects : List Effect) : Stage × List Effect :=
  match settlement? operation effects with
  | none => (closing s operation, effects)
  | some _ => (gone, effects ++ (s.shutdown .closed).2)

def receive (params : ConnectionParams) : Stage → Arrival → Stage × List Effect
  | askingSecurity a upgrade, .bytes chunk => afterSecurity params (a.feed chunk) upgrade
  | askingSecurity _ _, .stopped f => (failed (refusal (.ofStreamFailure f)), [])
  | askingCapabilities a secure, .bytes chunk => afterCapabilities params (a.feed chunk) secure
  | askingCapabilities _ _, .stopped f => (failed (.ofStreamFailure f), [])
  | authenticating s operation, arrival =>
    let (s, effects) := s.receive arrival
    afterAuthentication s operation effects
  | established s, arrival =>
    let (s, effects) := s.receive arrival
    (established s, effects)
  | closing s operation, arrival =>
    let (s, effects) := s.receive arrival
    afterClose s operation effects
  | failed e, _ => (failed e, [])
  | gone, _ => (gone, [])

end Stage

namespace Connection

def start (params : ConnectionParams) (upgrade : Option (Except StreamFailure Unit)) :
    Connection × List Effect :=
  let (stage, effects) := Stage.start params upgrade
  (⟨params, stage⟩, effects)

def receive (c : Connection) (arrival : Arrival) : Connection × List Effect :=
  let (stage, effects) := c.stage.receive c.params arrival
  ({ c with stage }, effects)

def session? (c : Connection) : Option Session :=
  match c.stage with
  | .established s => some s
  | _ => none

def handshake (c : Connection) : Awaited (Except ConnectionError Session) :=
  match c.stage with
  | .askingSecurity _ _ | .askingCapabilities _ _ | .authenticating _ _ => .pending
  | .established s | .closing s _ => .ready (.ok s)
  | .failed e => .ready (.error e)
  | .gone => .ready (.error .closed)

def isOpen (c : Connection) : Bool := c.session?.any Session.isOpen

/-! ## What the client does with its session -/

/-- Puts an operation into the queue and writes its request. Gives the number of the operation. -/
def submit (c : Connection) (s : Session) (operation : Operation) (request : Request) :
    Except ConnectionError (Nat × Connection × List Effect) :=
  (s.submit operation request).map fun (id, s, effects) =>
    (id, { c with stage := .established s }, effects)

def subscribe (c : Connection) (s : Session) : Connection :=
  { c with stage := .established { s with queue := s.queue.subscribe.2 } }

def drop (c : Connection) (s : Session) : Connection × List Effect :=
  ({ c with stage := .gone }, (s.shutdown .closed).2)

/-- Tells the server that the connection ends, unless it has ended already. Gives the number of the
operation to wait for, if there is one. The session cannot be used any more. -/
def close (c : Connection) (s : Session) :
    Except ConnectionError (Option Nat) × Connection × List Effect :=
  if s.isOpen then
    match s.submit .single .connectionClose with
    | .error e => (.error e, c.drop s)
    | .ok (id, s, effects) => (.ok (some id), { c with stage := .closing s id }, effects)
  else (.ok none, c.drop s)

def abandonClose (c : Connection) : Connection × List Effect :=
  match c.stage with
  | .closing s _ => c.drop s
  | _ => (c, [])

theorem isOpen_drop (c : Connection) (s : Session) : (c.drop s).1.isOpen = false := rfl

end Connection

end DocWire
