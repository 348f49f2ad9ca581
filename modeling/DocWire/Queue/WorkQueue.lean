import DocWire.Queue.Operation

/-!
# The work queue

The protocol numbers no requests: the server answers them in the order in which they were sent.
So operations wait in a queue, and every message belongs to the one at its head until that one is
over. Notices go to the subscribers as well, whatever is queued.

* `WorkQueue.enqueue`, `WorkQueue.subscribe`   what the client begins;
* `WorkQueue.route`                            what becomes of a frame;
* `WorkQueue.close`                            the end of the connection;
* `Delivery`                                   what operations and subscribers are given.
-/

namespace DocWire

/-- What is given to the caller of an operation, or to a subscriber. -/
inductive Delivery
  | event (operation : Nat) (event : ResultEvent)
  | settled (operation : Nat) (settlement : Settlement)
  | notice (subscriber : Nat) (notice : ServerNotice)
  /-- no more notices follow -/
  | ended (subscriber : Nat)

/-- An operation in the queue. -/
structure Queued where
  id : Nat
  operation : Operation
deriving DecidableEq

/-- The operations that wait for their answers, the oldest first. -/
structure WorkQueue where
  entries : List Queued := []
  /-- the number of the next operation -/
  nextId : Nat := 0
  /-- why the queue is closed, if it is -/
  closed : Option ConnectionError := none
  subscribers : List Nat := []
  /-- the number of the next subscriber -/
  nextSubscriber : Nat := 0
deriving DecidableEq

/-- What has become of a frame. -/
structure Routed where
  /-- what to answer the server, or the error for which the connection can no longer be trusted -/
  result : Except ConnectionError (List Request)
  queue : WorkQueue
  deliveries : List Delivery

namespace WorkQueue

def length (q : WorkQueue) : Nat := q.entries.length

def isClosed (q : WorkQueue) : Bool := q.closed.isSome

/-- the numbers of the operations that wait, the oldest first -/
def ids (q : WorkQueue) : List Nat := q.entries.map Queued.id

/-- Appends an operation, and gives its number. A closed queue refuses it. -/
def enqueue (q : WorkQueue) (operation : Operation) :
    Except ConnectionError (Nat × WorkQueue) :=
  match q.closed with
  | some reason => .error reason
  | none =>
    .ok (q.nextId,
      { q with entries := q.entries ++ [⟨q.nextId, operation⟩], nextId := q.nextId + 1 })

def subscribe (q : WorkQueue) : Nat × WorkQueue :=
  (q.nextSubscriber,
    { q with subscribers := q.subscribers ++ [q.nextSubscriber],
             nextSubscriber := q.nextSubscriber + 1 })

def unsubscribe (q : WorkQueue) (subscriber : Nat) : WorkQueue × List Delivery :=
  ({ q with subscribers := q.subscribers.filter (· ≠ subscriber) },
    if subscriber ∈ q.subscribers then [.ended subscriber] else [])

/-- A notice goes to the subscribers, and if it is local to the operation at the head too. -/
def routeNotice (q : WorkQueue) (n : ServerNotice) : Routed :=
  let entries :=
    match q.entries with
    | head :: rest =>
      if n.isLocal then { head with operation := head.operation.notice n.notice } :: rest
      else q.entries
    | [] => []
  ⟨.ok [], { q with entries }, q.subscribers.map (.notice · n)⟩

/-- A message that no operation waits for is dropped, unless it is a fatal error. -/
def routeUnasked (q : WorkQueue) (reply : Reply) : Routed :=
  match reply with
  | .error e => ⟨if e.fatal then .error (.server e) else .ok [], q, []⟩
  | _ => ⟨.ok [], q, []⟩

/-- A message for the operation at the head. An error ends the operation, and only a fatal one
ends the connection. -/
def routeTo (q : WorkQueue) (head : Queued) (rest : List Queued) (reply : Reply) : Routed :=
  match head.operation.handle reply with
  | .pending operation events =>
    ⟨.ok [], { q with entries := { head with operation } :: rest }, events.map (.event head.id)⟩
  | .reply operation request =>
    ⟨.ok [request], { q with entries := { head with operation } :: rest }, []⟩
  | .settled settlement => ⟨.ok [], { q with entries := rest }, [.settled head.id settlement]⟩
  | .failed e =>
    ⟨if e.isFatal then .error e else .ok [], { q with entries := rest },
      [.settled head.id (head.operation.fail e)]⟩

def routeReply (q : WorkQueue) (reply : Reply) : Routed :=
  match reply with
  | .notice n => q.routeNotice n
  | other =>
    match q.entries with
    | [] => q.routeUnasked other
    | head :: rest => q.routeTo head rest other

/-- What becomes of a frame. One that cannot be decoded belongs to no operation. -/
def route (q : WorkQueue) (frame : Frame) : Routed :=
  match Reply.decode frame with
  | .error e => ⟨.error e, q, []⟩
  | .ok reply => q.routeReply reply

/-- Ends every operation and every subscription, and refuses what comes later. The reason that
later operations are given is the first one. -/
def close (q : WorkQueue) (reason : ConnectionError) : WorkQueue × List Delivery :=
  ({ q with entries := [], closed := some (q.closed.getD reason), subscribers := [] },
    q.entries.map (fun entry => .settled entry.id (entry.operation.fail reason))
      ++ q.subscribers.map .ended)

theorem enqueue_of_closed {q : WorkQueue} {reason : ConnectionError} (h : q.closed = some reason)
    (operation : Operation) : q.enqueue operation = .error reason := by
  simp [enqueue, h]

theorem entries_close (q : WorkQueue) (reason : ConnectionError) :
    (q.close reason).1.entries = [] := rfl

theorem closed_close (q : WorkQueue) (reason : ConnectionError) :
    (q.close reason).1.closed = some (q.closed.getD reason) := rfl

theorem route_of_error {q : WorkQueue} {frame : Frame} {e : ConnectionError}
    (h : Reply.decode frame = .error e) : q.route frame = ⟨.error e, q, []⟩ := by
  simp [route, h]

end WorkQueue

end DocWire
