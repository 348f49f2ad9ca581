import DocWire.Queue.WorkQueue

/-!
# Sessions

Once the client has begun to authenticate, every request goes through the work queue, and every
frame that arrives is routed by it. The session ends with the first failure that cannot be told to
one operation alone.

* `Effect`             what a step asks of the stream, or gives to callers;
* `Arrival`            what the stream brings;
* `Session.submit`     a request and the operation that waits for its answer, as one step;
* `Session.receive`    what arrives;
* `Session.shutdown`   the end.
-/

namespace DocWire

open ConnectionError (StreamFailure)

/-- What a step asks of the stream, or gives to callers. -/
inductive Effect
  /-- a message is written to the stream -/
  | write (request : Request)
  /-- the stream is secured -/
  | secure
  | deliver (delivery : Delivery)

/-- What the stream brings. -/
inductive Arrival
  | bytes (chunk : List UInt8)
  /-- the server has ended the stream, or reading or writing it has failed -/
  | stopped (failure : StreamFailure)
deriving DecidableEq

structure Session where
  assembler : Assembler
  queue : WorkQueue := {}
  /-- whether the stream is still read and written -/
  isOpen : Bool := true
  mechanism : Mechanism
  /-- whether the stream is secured -/
  secure : Bool
  /-- what the server has said of itself -/
  capabilities : List (String × AnyValue)

namespace Session

/-- Ends the session: everything in the queue fails with the reason. -/
def shutdown (s : Session) (reason : ConnectionError) : Session × List Effect :=
  let (queue, deliveries) := s.queue.close reason
  ({ s with queue, isOpen := false }, deliveries.map .deliver)

def submit (s : Session) (operation : Operation) (request : Request) :
    Except ConnectionError (Nat × Session × List Effect) :=
  if s.isOpen then
    (s.queue.enqueue operation).map fun (id, queue) => (id, { s with queue }, [.write request])
  else .error .closed

def routeFrames (s : Session) : List Frame → Session × List Effect
  | [] => (s, [])
  | frame :: rest =>
    let routed := s.queue.route frame
    let s := { s with queue := routed.queue }
    let effects := routed.deliveries.map Effect.deliver
    match routed.result with
    | .ok requests =>
      let (s, more) := s.routeFrames rest
      (s, effects ++ requests.map .write ++ more)
    | .error e =>
      let (s, more) := s.shutdown e
      (s, effects ++ more)

/-- Routes every whole frame that is there. A broken frame ends the connection. -/
def pump (s : Session) : Session × List Effect :=
  match s.assembler.drain with
  | (.ok frames, assembler) => { s with assembler }.routeFrames frames
  | (.error e, assembler) => { s with assembler }.shutdown e

/-- Takes in what the stream brings. A session that has ended reads no more. -/
def receive (s : Session) (arrival : Arrival) : Session × List Effect :=
  if s.isOpen then
    match arrival with
    | .bytes chunk => { s with assembler := s.assembler.feed chunk }.pump
    | .stopped f => s.shutdown (.ofStreamFailure f)
  else (s, [])

theorem submit_of_not_open {s : Session} (h : s.isOpen = false) (operation : Operation)
    (request : Request) : s.submit operation request = .error .closed := by
  simp [submit, h]

theorem receive_of_not_open {s : Session} (h : s.isOpen = false) (arrival : Arrival) :
    s.receive arrival = (s, []) := by
  simp [receive, h]

theorem routeFrames_nil (s : Session) : s.routeFrames [] = (s, []) := rfl

theorem isOpen_shutdown (s : Session) (reason : ConnectionError) :
    (s.shutdown reason).1.isOpen = false := rfl

end Session

end DocWire
