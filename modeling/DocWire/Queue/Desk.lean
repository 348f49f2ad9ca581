import DocWire.Queue.Callers

/-!
# A queue and its callers

Each operation of the queue, together with what the callers hold then.

* `Desk.execute`, `Desk.request`, `Desk.subscribe`, `Desk.unsubscribe`   what callers begin and end;
* `Desk.route`, `Desk.close`                                             what the connection does.
-/

namespace DocWire

/-- A queue and its callers. -/
structure Desk where
  queue : WorkQueue := {}
  callers : Callers := {}

namespace Desk

/-- Appends an operation, for which `hold` makes someone wait. -/
def enqueue (d : Desk) (operation : Operation) (hold : Callers → Option Nat → Callers) :
    Except ConnectionError Nat × Desk :=
  match d.queue.enqueue operation with
  | .ok (id, queue) => (.ok id, ⟨queue, hold d.callers (some id)⟩)
  | .error e => (.error e, { d with callers := hold d.callers none })

def execute (d : Desk) : Except ConnectionError Nat × Desk :=
  d.enqueue .newStatement Callers.holdExecution

/-- Appends an operation that a reply waits for. -/
def request (d : Desk) (operation : Operation) : Except ConnectionError Nat × Desk :=
  d.enqueue operation Callers.holdReply

def subscribe (d : Desk) : Desk := ⟨d.queue.subscribe.2, d.callers.holdSubscription⟩

def unsubscribe (d : Desk) (subscriber : Nat) : Desk :=
  let (queue, deliveries) := d.queue.unsubscribe subscriber
  ⟨queue, d.callers.deliverAll deliveries⟩

def route (d : Desk) (frame : Frame) : Except ConnectionError (List Request) × Desk :=
  let routed := d.queue.route frame
  (routed.result, ⟨routed.queue, d.callers.deliverAll routed.deliveries⟩)

def close (d : Desk) (reason : ConnectionError) : Desk :=
  let (queue, deliveries) := d.queue.close reason
  ⟨queue, d.callers.deliverAll deliveries⟩

theorem queue_route (d : Desk) (frame : Frame) :
    (d.route frame).2.queue = (d.queue.route frame).queue := rfl

theorem queue_close (d : Desk) (reason : ConnectionError) :
    (d.close reason).queue = (d.queue.close reason).1 := rfl

end Desk

end DocWire
