import DocWire.Queue.WorkQueue

/-!
# The operation at the head of a queue

Routing a frame is handing it to the operation at the head: nothing else in the queue changes, and
no other caller is told anything.

* `Operation.take`         what becomes of an operation that is handed a frame;
* `Operation.respond`      what the server is answered then;
* `Operation.through`      what is left of it after more frames;
* `told`                   what the caller of an operation is told;
* `WorkQueue.entries_route`, `WorkQueue.told_route`, `WorkQueue.result_route`   a frame where
                           something waits;
* `WorkQueue.route_empty`  a frame where nothing waits.
-/

namespace DocWire

/-- Whether a message is for the operation at the head.  Global notices are for nobody. -/
def Reply.isAddressed : Reply → Bool
  | .notice n => n.isLocal
  | _ => true

/-- Whether a frame has a message that is for the operation at the head. -/
def Frame.isAddressed (frame : Frame) : Bool :=
  match Reply.decode frame with
  | .ok reply => reply.isAddressed
  | .error _ => false

/-- What becomes of an operation that is handed a frame.  One that cannot be decoded and one with
a global notice do nothing to it. -/
def Operation.take (o : Operation) (frame : Frame) : Progress :=
  match Reply.decode frame with
  | .error _ => .pending o []
  | .ok (.notice n) => .pending (if n.isLocal then o.notice n.notice else o) []
  | .ok reply => o.handle reply

/-- What the caller of an operation is told. -/
inductive Told
  | event (event : ResultEvent)
  | settled (settlement : Settlement)

def Delivery.tells? (id : Nat) : Delivery → Option Told
  | .event i e => if i = id then some (.event e) else none
  | .settled i s => if i = id then some (.settled s) else none
  | _ => none

/-- Everything that the caller of an operation is told, in order. -/
def told (id : Nat) (deliveries : List Delivery) : List Told :=
  deliveries.filterMap (Delivery.tells? id)

theorem told_nil (id : Nat) : told id [] = [] := rfl
theorem told_append (id : Nat) (a b : List Delivery) :
    told id (a ++ b) = told id a ++ told id b := List.filterMap_append

theorem told_cons (id : Nat) (d : Delivery) (rest : List Delivery) :
    told id (d :: rest) = (d.tells? id).toList ++ told id rest := by
  unfold told
  rw [List.filterMap_cons]
  cases d.tells? id <;> rfl

theorem tells?_event (i id : Nat) (e : ResultEvent) :
    (Delivery.event i e).tells? id = if i = id then some (.event e) else none := rfl
theorem tells?_settled (i id : Nat) (s : Settlement) :
    (Delivery.settled i s).tells? id = if i = id then some (.settled s) else none := rfl

theorem told_notices (id : Nat) (subscribers : List Nat) (n : ServerNotice) :
    told id (subscribers.map (.notice · n)) = [] := by
  induction subscribers with
  | nil => rfl
  | cons s rest ih => exact ih

theorem told_events (i id : Nat) (events : List ResultEvent) :
    told id (events.map (.event i)) = if i = id then events.map .event else [] := by
  induction events with
  | nil => rw [List.map_nil, List.map_nil, told_nil, ite_self]
  | cons e rest ih =>
    rw [List.map_cons, told_cons, tells?_event, ih]
    by_cases h : i = id
    · rw [if_pos h, if_pos h, if_pos h]
      rfl
    · rw [if_neg h, if_neg h, if_neg h]
      rfl

theorem told_settled (i id : Nat) (s : Settlement) :
    told id [.settled i s] = if i = id then [.settled s] else [] := by
  rw [told_cons, tells?_settled, told_nil, List.append_nil]
  by_cases h : i = id
  · rw [if_pos h, if_pos h]
    rfl
  · rw [if_neg h, if_neg h]
    rfl

namespace Progress

def next : Progress → Option Operation
  | pending o _ | reply o _ => some o
  | settled _ | failed _ => none

/-- what the caller of the operation `o` is told -/
def tells (o : Operation) : Progress → List Told
  | pending _ events => events.map .event
  | reply _ _ => []
  | settled s => [.settled s]
  | failed e => [.settled (o.fail e)]

/-- what the server is answered, or why the connection is lost -/
def result : Progress → Except ConnectionError (List Request)
  | pending _ _ | settled _ => .ok []
  | reply _ request => .ok [request]
  | failed e => if e.isFatal then .error e else .ok []

end Progress

/-- What the server is answered, or why the connection is lost, when an operation is handed a
frame. -/
def Operation.respond (o : Operation) (frame : Frame) : Except ConnectionError (List Request) :=
  match Reply.decode frame with
  | .error e => .error e
  | .ok _ => (o.take frame).result

/-- What is left of an operation that was handed frames, if it goes on. -/
def Operation.through (o : Operation) (frames : List Frame) : Option Operation :=
  frames.foldlM (fun o frame => (o.take frame).next) o

theorem through_nil (o : Operation) : o.through [] = some o := rfl
theorem through_cons (o : Operation) (frame : Frame) (rest : List Frame) :
    o.through (frame :: rest) = (o.take frame).next.bind (·.through rest) := rfl
theorem through_append (o : Operation) (a b : List Frame) :
    o.through (a ++ b) = (o.through a).bind (·.through b) := List.foldlM_append

namespace WorkQueue

section
variable {q : WorkQueue} {head : Queued} {rest : List Queued} {frame : Frame}

theorem take_of_reply {reply : Reply} (hd : Reply.decode frame = .ok reply)
    (hr : ∀ n, reply ≠ .notice n) (o : Operation) : o.take frame = o.handle reply := by
  unfold Operation.take
  rw [hd]
  cases reply with
  | notice n => exact absurd rfl (hr n)
  | _ => rfl

theorem take_of_notice {n : ServerNotice} (hd : Reply.decode frame = .ok (.notice n))
    (o : Operation) :
    o.take frame = .pending (if n.isLocal then o.notice n.notice else o) [] := by
  unfold Operation.take
  rw [hd]

theorem take_of_error {e : ConnectionError} (hd : Reply.decode frame = .error e)
    (o : Operation) : o.take frame = .pending o [] := by
  unfold Operation.take
  rw [hd]

theorem route_of_notice {n : ServerNotice} (hd : Reply.decode frame = .ok (.notice n)) :
    q.route frame = q.routeNotice n := by
  unfold route
  rw [hd]
  rfl

theorem route_of_reply (h : q.entries = head :: rest) {reply : Reply}
    (hd : Reply.decode frame = .ok reply) (hr : ∀ n, reply ≠ .notice n) :
    q.route frame = q.routeTo head rest reply := by
  unfold route routeReply
  rw [hd]
  cases reply with
  | notice n => exact absurd rfl (hr n)
  | _ => rw [h]

/-- The message of a frame, if it has one, is a notice or not. -/
theorem decode_cases (frame : Frame) :
    (∃ e, Reply.decode frame = .error e) ∨ (∃ n, Reply.decode frame = .ok (.notice n)) ∨
      ∃ reply, Reply.decode frame = .ok reply ∧ ∀ n, reply ≠ .notice n := by
  cases hd : Reply.decode frame with
  | error e => exact Or.inl ⟨e, rfl⟩
  | ok reply =>
    cases reply with
    | notice n => exact Or.inr (Or.inl ⟨n, rfl⟩)
    | _ => exact Or.inr (Or.inr ⟨_, rfl, fun _ h => by cases h⟩)

/-- **A frame changes the operation at the head, or takes it out, and no other.** -/
theorem entries_route (h : q.entries = head :: rest) (frame : Frame) :
    (q.route frame).queue.entries
      = ((head.operation.take frame).next.map (Queued.mk head.id)).toList ++ rest := by
  rcases decode_cases frame with ⟨e, hd⟩ | ⟨n, hd⟩ | ⟨reply, hd, hr⟩
  · rw [route_of_error hd, take_of_error hd]
    exact h
  · rw [route_of_notice hd, take_of_notice hd]
    unfold routeNotice
    rw [h]
    cases n.isLocal <;> rfl
  · rw [route_of_reply h hd hr, take_of_reply hd hr]
    unfold routeTo
    cases head.operation.handle reply <;> rfl

/-- Only the caller of the operation at the head is told of a frame. -/
theorem told_route (h : q.entries = head :: rest) (frame : Frame) (id : Nat) :
    told id (q.route frame).deliveries
      = if head.id = id then (head.operation.take frame).tells head.operation else [] := by
  rcases decode_cases frame with ⟨e, hd⟩ | ⟨n, hd⟩ | ⟨reply, hd, hr⟩
  · rw [route_of_error hd, take_of_error hd]
    exact (ite_self _).symm
  · rw [route_of_notice hd, take_of_notice hd]
    exact (told_notices id q.subscribers n).trans (ite_self _).symm
  · rw [route_of_reply h hd hr, take_of_reply hd hr]
    unfold routeTo
    cases head.operation.handle reply with
    | pending o events => exact told_events head.id id events
    | reply o request => exact (ite_self _).symm
    | settled s => exact told_settled head.id id s
    | failed e => exact told_settled head.id id _

theorem result_route (h : q.entries = head :: rest) (frame : Frame) :
    (q.route frame).result = head.operation.respond frame := by
  unfold Operation.respond
  rcases decode_cases frame with ⟨e, hd⟩ | ⟨n, hd⟩ | ⟨reply, hd, hr⟩
  · rw [route_of_error hd, hd]
  · rw [route_of_notice hd, take_of_notice hd, hd]
    rfl
  · rw [route_of_reply h hd hr, take_of_reply hd hr, hd]
    unfold routeTo
    cases head.operation.handle reply <;> rfl

/-- Where nothing waits nothing changes, and nobody is told. -/
theorem route_empty (h : q.entries = []) (frame : Frame) :
    (q.route frame).queue.entries = [] ∧ ∀ id, told id (q.route frame).deliveries = [] := by
  rcases decode_cases frame with ⟨e, hd⟩ | ⟨n, hd⟩ | ⟨reply, hd, hr⟩
  · rw [route_of_error hd]
    exact ⟨h, fun _ => rfl⟩
  · rw [route_of_notice hd]
    refine ⟨?_, fun id => told_notices id q.subscribers n⟩
    unfold routeNotice
    rw [h]
  · have hroute : q.route frame = q.routeUnasked reply := by
      unfold route routeReply
      rw [hd]
      cases reply with
      | notice n => exact absurd rfl (hr n)
      | _ => rw [h]
    rw [hroute]
    unfold routeUnasked
    split <;> exact ⟨h, fun _ => rfl⟩

/-- Only callers of operations that wait are told anything. -/
theorem told_route_of_not_mem {id : Nat} (h : id ∉ q.ids) (frame : Frame) :
    told id (q.route frame).deliveries = [] := by
  cases hq : q.entries with
  | nil => exact (route_empty hq frame).2 id
  | cons head rest =>
    have hne : head.id ≠ id := by
      rintro rfl
      apply h
      unfold ids
      rw [hq]
      exact List.mem_cons_self
    rw [told_route hq, if_neg hne]

end

end WorkQueue

end DocWire
