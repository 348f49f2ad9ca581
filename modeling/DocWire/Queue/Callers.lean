import DocWire.Queue.WorkQueue
import DocWire.ResultSet.Execution

/-!
# The callers of a queue

Who has started an operation holds something to read its answer from: an execution for a
statement, a reply for any other operation. Both can be taken or given up only once. Subscribers
hold the notices they have not read.

* `Callers`             everything that is held, each kind numbered from zero;
* `Callers.deliver`     what comes from the queue;
* `Callers.read`, `Callers.consume`, `Callers.takeReply`, `Callers.takeNotices`   what is read.
-/

namespace DocWire

/-- What is held of an operation. -/
structure Held (α : Type) where
  /-- the operation, unless the queue has refused it -/
  operation : Option Nat
  /-- nothing once it was taken or given up -/
  content : Option α

namespace Held

variable {α : Type}

def update (id : Nat) (f : α → α) (h : Held α) : Held α :=
  if h.operation = some id then { h with content := h.content.map f } else h

/-- What was given up stays gone, whatever comes for it. -/
theorem update_of_gone (id : Nat) (f : α → α) (operation : Option Nat) :
    update id f ⟨operation, none⟩ = ⟨operation, none⟩ := by
  unfold update
  split <;> rfl

end Held

/-- What a subscriber holds. -/
structure Subscription where
  /-- the notices that have not been read -/
  unread : List ServerNotice := []
  /-- whether no more notices follow -/
  ended : Bool := false
deriving DecidableEq

/-- Everything that is held, in order of creation. -/
structure Callers where
  executions : List (Held Execution) := []
  replies : List (Held (Awaited Settlement)) := []
  subscriptions : List Subscription := []

namespace Callers

/-! ## What is held -/

/-- Someone holds an execution. That of a refused statement fails. -/
def holdExecution (c : Callers) (operation : Option Nat) : Callers :=
  let execution : Execution := if operation.isSome then {} else .refused
  { c with executions := c.executions ++ [⟨operation, some execution⟩] }

/-- Someone holds a reply. Of a refused operation there is none. -/
def holdReply (c : Callers) (operation : Option Nat) : Callers :=
  { c with replies := c.replies ++ [⟨operation, operation.map fun _ => .pending⟩] }

def holdSubscription (c : Callers) : Callers :=
  { c with subscriptions := c.subscriptions ++ [{}] }

def deliver (c : Callers) : Delivery → Callers
  | .event id event => { c with executions := c.executions.map (.update id (·.accept event)) }
  | .settled id (.outcome result) =>
    { c with executions := c.executions.map (.update id (·.settle result)) }
  | .settled id settlement =>
    { c with replies := c.replies.map (.update id fun _ => .ready settlement) }
  | .notice subscriber n =>
    { c with subscriptions := c.subscriptions.modify subscriber fun s =>
        { s with unread := s.unread ++ [n] } }
  | .ended subscriber =>
    { c with subscriptions := c.subscriptions.modify subscriber ({ · with ended := true }) }

/-- Takes in all that comes from the queue, in order. -/
def deliverAll (c : Callers) (deliveries : List Delivery) : Callers := deliveries.foldl deliver c

/-! ## What is read -/

def execution? (c : Callers) (n : Nat) : Option Execution :=
  c.executions[n]?.bind Held.content

/-- The callers after an execution was read from, or was given up. -/
def setExecution (c : Callers) (n : Nat) (x : Option Execution) : Callers :=
  { c with executions := c.executions.modify n ({ · with content := x }) }

/-- Reads from an execution, unless it is gone. -/
def read {α : Type} (c : Callers) (n : Nat) (f : Execution → α × Execution) :
    Option α × Callers :=
  match c.execution? n with
  | none => (none, c)
  | some x =>
    let (answer, x) := f x
    (some answer, c.setExecution n (some x))

/-- Reads the end of an execution, which is gone afterwards, also if there is no end yet. -/
def consume {α : Type} (c : Callers) (n : Nat) (f : Execution → α) : Option α × Callers :=
  match c.execution? n with
  | none => (none, c)
  | some x => (some (f x), c.setExecution n none)

/-- The reply of a number, unless it is gone. It is gone once it was there. -/
def takeReply (c : Callers) (n : Nat) : Option (Awaited Settlement) × Callers :=
  match c.replies[n]?.bind Held.content with
  | none => (none, c)
  | some .pending => (some .pending, c)
  | some (.ready s) =>
    (some (.ready s), { c with replies := c.replies.modify n ({ · with content := none }) })

/-- Gives up waiting for a reply. -/
def abandonReply (c : Callers) (n : Nat) : Callers :=
  { c with replies := c.replies.modify n ({ · with content := none }) }

/-- The notices that a subscriber has not read, and whether no more follow. -/
def takeNotices (c : Callers) (n : Nat) : Option Subscription × Callers :=
  (c.subscriptions[n]?,
    { c with subscriptions := c.subscriptions.modify n ({ · with unread := [] }) })

theorem deliverAll_nil (c : Callers) : c.deliverAll [] = c := rfl

theorem deliverAll_append (c : Callers) (a b : List Delivery) :
    c.deliverAll (a ++ b) = (c.deliverAll a).deliverAll b := List.foldl_append

end Callers

end DocWire
