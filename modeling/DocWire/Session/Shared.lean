import DocWire.Session.Basic

/-!
# Sessions in common use

Many calls use one session at the same time, while its reader routes what arrives.  A call looks
whether the session is open, takes the stream, puts its operation into the queue, writes its
request and gives the stream back.  The reader takes the stream for its replies.  Whoever meets a
failure ends the session, in two steps.  Any of them may come next.

* `Errand`              what a call submits;
* `Task`, `Turn`        how far a call or the reader has come;
* `SharedSession`       the session, the stream, and everyone's turn;
* `Move`                what may happen next;
* `SharedSession.step`, `SharedSession.run`   what comes of it.
-/

namespace DocWire

open ConnectionError (StreamFailure)

inductive Party
  | call (number : Nat)
  | reader
deriving DecidableEq

/-- What a call submits. -/
structure Errand where
  operation : Operation
  request : Request

/-- What a party is about to do that does not hold the stream. -/
inductive Task
  /-- a call that has not begun -/
  | ready
  /-- a call that has found the session open waits for the stream -/
  | submit
  /-- the reader has frames to route, and reads on once there are none -/
  | route (frames : List Frame)
  /-- the reader waits for the stream, to write replies before it routes frames -/
  | reply (replies : List Request) (frames : List Frame)
  /-- the session is to be marked as ended -/
  | mark (reason : ConnectionError)
  /-- the queue of the session is to be closed -/
  | close (reason : ConnectionError)
  /-- a call gives its result, or the reader is done -/
  | finished (result : Except ConnectionError Nat)

/-- How far a party has come. -/
inductive Turn
  /-- without the stream -/
  | free (task : Task)
  /-- a call has the stream, and has not put its operation into the queue -/
  | entering
  /-- has the stream, with bytes to write -/
  | writing (rest : List UInt8) (next : Task)
  /-- has the stream, and writes no more -/
  | leaving (next : Task)

/-- A session and everyone who uses it. -/
structure SharedSession where
  session : Session
  turns : Party → Turn
  writer : Option Party := none
  /-- the bytes that were written, and by whom -/
  stream : List (Party × UInt8) := []
  /-- whether the stream has failed: it takes no more bytes -/
  broken : Bool := false
  /-- the calls whose operations were put into the queue, in order -/
  entered : List Nat := []
  /-- what callers and subscribers were given -/
  given : List Delivery := []

/-- What may happen next. Moves that cannot be made change nothing. -/
inductive Move
  /-- a call looks whether the session is open -/
  | check (call : Nat)
  | take (call : Nat)
  /-- the reader takes the stream to write replies -/
  | reply
  /-- a call puts its operation into the queue -/
  | enter (call : Nat)
  /-- the stream takes some of the bytes -/
  | write (party : Party) (count : Nat)
  /-- the stream takes no more bytes -/
  | fail (party : Party) (failure : StreamFailure)
  | release (party : Party)
  /-- the reader takes in what the stream brings -/
  | read (arrival : Arrival)
  | route
  /-- the first step of an end: whoever asks finds the session closed -/
  | mark (party : Party)
  /-- the second step of an end: whatever is queued fails -/
  | close (party : Party)

def tagged (p : Party) (bytes : List UInt8) : List (Party × UInt8) := bytes.map (p, ·)

namespace SharedSession

def unused (session : Session) : SharedSession where
  session
  turns
    | .call _ => .free .ready
    | .reader => .free (.route [])

/-- A party goes on to a turn. -/
def become (s : SharedSession) (p : Party) (turn : Turn) : SharedSession :=
  { s with turns := fun q => if q = p then turn else s.turns q }

/-- What the reader does about a frame that was routed. -/
def afterRoute (result : Except ConnectionError (List Request)) (rest : List Frame) : Task :=
  match result with
  | .error e => .mark e
  | .ok [] => .route rest
  | .ok replies => .reply replies rest

def read (s : SharedSession) : Arrival → SharedSession
  | .stopped f => s.become .reader (.free (.mark (.ofStreamFailure f)))
  | .bytes chunk =>
    match (s.session.assembler.feed chunk).drain with
    | (.ok frames, assembler) =>
      { s with session := { s.session with assembler } }.become .reader (.free (.route frames))
    | (.error e, assembler) =>
      { s with session := { s.session with assembler } }.become .reader (.free (.mark e))

def route (s : SharedSession) (frame : Frame) (rest : List Frame) : SharedSession :=
  let routed := s.session.queue.route frame
  { s with session := { s.session with queue := routed.queue },
           given := s.given ++ routed.deliveries }.become .reader
    (.free (afterRoute routed.result rest))

/-- A call that has the stream puts its operation into the queue. A closed queue refuses it, and
then nothing is written. -/
def enter (s : SharedSession) (i : Nat) (errand : Errand) : SharedSession :=
  match s.session.queue.enqueue errand.operation with
  | .error e => s.become (.call i) (.leaving (.finished (.error e)))
  | .ok (id, queue) =>
    { s with session := { s.session with queue }, entered := s.entered ++ [i] }.become (.call i)
      (.writing errand.request.encode (.finished (.ok id)))

/-- What comes of a move, where `plan` tells what every call submits. -/
def step (plan : Nat → Errand) (s : SharedSession) : Move → SharedSession
  | .check i =>
    match s.turns (.call i) with
    | .free .ready =>
      s.become (.call i) (.free (if s.session.isOpen then .submit else .finished (.error .closed)))
    | _ => s
  | .take i =>
    match s.writer, s.turns (.call i) with
    | none, .free .submit => { s with writer := some (.call i) }.become (.call i) .entering
    | _, _ => s
  | .reply =>
    match s.writer, s.turns .reader with
    | none, .free (.reply replies frames) =>
      { s with writer := some .reader }.become .reader
        (.writing (replies.flatMap Request.encode) (.route frames))
    | _, _ => s
  | .enter i =>
    match s.turns (.call i) with
    | .entering => s.enter i (plan i)
    | _ => s
  | .write p count =>
    match s.turns p, s.broken with
    | .writing rest next, false =>
      { s with stream := s.stream ++ tagged p (rest.take count) }.become p
        (.writing (rest.drop count) next)
    | _, _ => s
  | .fail p f =>
    match s.turns p with
    | .writing _ _ =>
      { s with broken := true }.become p (.leaving (.mark (.ofStreamFailure f)))
    | _ => s
  | .release p =>
    match s.turns p with
    | .writing [] next | .leaving next => { s with writer := none }.become p (.free next)
    | _ => s
  | .read arrival =>
    match s.turns .reader with
    | .free (.route []) => s.read arrival
    | _ => s
  | .route =>
    match s.turns .reader with
    | .free (.route (frame :: rest)) => s.route frame rest
    | _ => s
  | .mark p =>
    match s.turns p with
    | .free (.mark e) =>
      { s with session := { s.session with isOpen := false } }.become p (.free (.close e))
    | _ => s
  | .close p =>
    match s.turns p with
    | .free (.close e) =>
      let (queue, deliveries) := s.session.queue.close e
      { s with session := { s.session with queue }, given := s.given ++ deliveries }.become p
        (.free (.finished (.error e)))
    | _ => s

def run (plan : Nat → Errand) (s : SharedSession) (moves : List Move) : SharedSession :=
  moves.foldl (step plan) s

theorem become_self (s : SharedSession) (p : Party) (turn : Turn) :
    (s.become p turn).turns p = turn := if_pos rfl

theorem become_of_ne (s : SharedSession) {p q : Party} (h : q ≠ p) (turn : Turn) :
    (s.become p turn).turns q = s.turns q := if_neg h

theorem run_nil (plan : Nat → Errand) (s : SharedSession) : s.run plan [] = s := rfl

theorem run_cons (plan : Nat → Errand) (s : SharedSession) (m : Move) (rest : List Move) :
    s.run plan (m :: rest) = (s.step plan m).run plan rest := rfl

theorem run_append (plan : Nat → Errand) (s : SharedSession) (a b : List Move) :
    s.run plan (a ++ b) = (s.run plan a).run plan b := List.foldl_append

end SharedSession

end DocWire
