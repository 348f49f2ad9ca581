import DocWire.Queue.WorkQueue
import Mathlib.Data.List.Nodup

/-!
# What becomes of the operations of a queue

Any calls, in any order, are made on a queue.  A ledger of them balances: the operations that were
settled, followed by those that wait, are the operations that were accepted, in the order in which
they were accepted.

* `QueueCall`, `WorkQueue.run`      the calls, and what they lead to;
* `WorkQueue.accepted`              the operations that were accepted;
* `settledIds`                      the operations that were settled;
* `WorkQueue.ledger_call`, `WorkQueue.ledger_run`   the balance of one call and of many;
* `WorkQueue.Shut`                  a queue that is closed for good;
* `WorkQueue.settled_exactly_once`  what follows for every single operation.
-/

namespace DocWire

inductive QueueCall
  | enqueue (operation : Operation)
  | subscribe
  | unsubscribe (subscriber : Nat)
  | route (frame : Frame)
  | close (reason : ConnectionError)

def Delivery.settles? : Delivery → Option Nat
  | .settled id _ => some id
  | _ => none

/-- The operations that are settled, in order, each as often as it is. -/
def settledIds (deliveries : List Delivery) : List Nat := deliveries.filterMap Delivery.settles?

theorem settledIds_nil : settledIds [] = [] := rfl
theorem settledIds_append (a b : List Delivery) :
    settledIds (a ++ b) = settledIds a ++ settledIds b := List.filterMap_append

theorem settledIds_notices (subscribers : List Nat) (n : ServerNotice) :
    settledIds (subscribers.map (.notice · n)) = [] := by
  induction subscribers with
  | nil => rfl
  | cons s rest ih => exact ih

theorem settledIds_events (id : Nat) (events : List ResultEvent) :
    settledIds (events.map (.event id)) = [] := by
  induction events with
  | nil => rfl
  | cons e rest ih => exact ih

theorem settledIds_ended (subscribers : List Nat) :
    settledIds (subscribers.map .ended) = [] := by
  induction subscribers with
  | nil => rfl
  | cons s rest ih => exact ih

theorem settledIds_failed (reason : ConnectionError) (entries : List Queued) :
    settledIds (entries.map fun entry => .settled entry.id (entry.operation.fail reason))
      = entries.map Queued.id := by
  induction entries with
  | nil => rfl
  | cons e rest ih => exact congrArg (e.id :: ·) ih

namespace WorkQueue

def call (q : WorkQueue) : QueueCall → WorkQueue × List Delivery
  | .enqueue operation =>
    match q.enqueue operation with
    | .ok (_, q) => (q, [])
    | .error _ => (q, [])
  | .subscribe => (q.subscribe.2, [])
  | .unsubscribe subscriber => q.unsubscribe subscriber
  | .route frame => ((q.route frame).queue, (q.route frame).deliveries)
  | .close reason => q.close reason

/-- The queue after calls, and all that they give, in order. -/
def run (q : WorkQueue) : List QueueCall → WorkQueue × List Delivery
  | [] => (q, [])
  | c :: rest =>
    let (next, given) := q.call c
    let (last, more) := next.run rest
    (last, given ++ more)

/-- the number that a call gives to an operation, unless it is refused -/
def accepts (q : WorkQueue) : QueueCall → List Nat
  | .enqueue operation =>
    match q.enqueue operation with
    | .ok (id, _) => [id]
    | .error _ => []
  | _ => []

/-- The operations that calls bring into the queue, in order. -/
def accepted (q : WorkQueue) : List QueueCall → List Nat
  | [] => []
  | c :: rest => q.accepts c ++ (q.call c).1.accepted rest

theorem run_nil (q : WorkQueue) : q.run [] = (q, []) := rfl
theorem run_cons (q : WorkQueue) (c : QueueCall) (rest : List QueueCall) :
    q.run (c :: rest)
      = (((q.call c).1.run rest).1, (q.call c).2 ++ ((q.call c).1.run rest).2) := rfl
theorem run_append (q : WorkQueue) (a b : List QueueCall) :
    q.run (a ++ b) = (((q.run a).1.run b).1, (q.run a).2 ++ ((q.run a).1.run b).2) := by
  induction a generalizing q with
  | nil => rfl
  | cons c rest ih => rw [List.cons_append, run_cons, ih, run_cons, List.append_assoc]

/-! ## The ledger -/

/-- A notice ends nothing. -/
theorem ids_routeNotice (q : WorkQueue) (n : ServerNotice) : (q.routeNotice n).queue.ids = q.ids := by
  unfold routeNotice ids
  cases h : q.entries with
  | nil => rfl
  | cons head rest =>
    cases hn : n.isLocal with
    | true => rfl
    | false => simp

theorem ledger_routeNotice (q : WorkQueue) (n : ServerNotice) :
    settledIds (q.routeNotice n).deliveries ++ (q.routeNotice n).queue.ids = q.ids := by
  show settledIds (q.subscribers.map (.notice · n)) ++ _ = _
  rw [settledIds_notices, List.nil_append, ids_routeNotice]

theorem ledger_routeTo (q : WorkQueue) (head : Queued) (rest : List Queued) (reply : Reply) :
    settledIds (q.routeTo head rest reply).deliveries ++ (q.routeTo head rest reply).queue.ids
      = head.id :: rest.map Queued.id := by
  unfold routeTo
  cases head.operation.handle reply with
  | pending operation events =>
    show settledIds (events.map (.event head.id)) ++ _ = _
    rw [settledIds_events]
    rfl
  | reply operation request => rfl
  | settled settlement => rfl
  | failed e => rfl

theorem ledger_routeUnasked (q : WorkQueue) (reply : Reply) :
    settledIds (q.routeUnasked reply).deliveries ++ (q.routeUnasked reply).queue.ids = q.ids := by
  unfold routeUnasked
  split <;> rfl

theorem ledger_route (q : WorkQueue) (frame : Frame) :
    settledIds (q.route frame).deliveries ++ (q.route frame).queue.ids = q.ids := by
  unfold route
  split
  · rfl
  · unfold routeReply
    split
    · exact ledger_routeNotice q _
    · split
      · exact ledger_routeUnasked q _
      · rename_i head rest h
        rw [ledger_routeTo, ids, h]
        rfl

/-- After a frame the operations wait that did before it, or all but the oldest of them. -/
theorem ids_route_suffix (q : WorkQueue) (frame : Frame) : (q.route frame).queue.ids <:+ q.ids :=
  ⟨_, ledger_route q frame⟩

theorem ledger_close (q : WorkQueue) (reason : ConnectionError) :
    settledIds (q.close reason).2 ++ (q.close reason).1.ids = q.ids := by
  show settledIds (_ ++ q.subscribers.map .ended) ++ [] = _
  rw [settledIds_append, settledIds_ended, settledIds_failed, List.append_nil, List.append_nil]
  rfl

/-- **What a call settles and what waits after it is what waited before it and what it brings.** -/
theorem ledger_call (q : WorkQueue) (c : QueueCall) :
    settledIds (q.call c).2 ++ (q.call c).1.ids = q.ids ++ q.accepts c := by
  cases c with
  | enqueue operation =>
    unfold call accepts enqueue
    cases q.closed with
    | some reason => simp [settledIds_nil]
    | none => simp [settledIds_nil, ids]
  | subscribe => simp [call, accepts, subscribe, ids, settledIds_nil]
  | unsubscribe subscriber =>
    have h : settledIds (q.unsubscribe subscriber).2 = [] := by
      unfold unsubscribe
      dsimp only
      split <;> rfl
    show settledIds (q.unsubscribe subscriber).2 ++ _ = q.ids ++ []
    rw [h, List.append_nil]
    rfl
  | route frame => exact (ledger_route q frame).trans (List.append_nil _).symm
  | close reason => exact (ledger_close q reason).trans (List.append_nil _).symm

/-- The balance of any calls. -/
theorem ledger_run (q : WorkQueue) (calls : List QueueCall) :
    settledIds (q.run calls).2 ++ (q.run calls).1.ids = q.ids ++ q.accepted calls := by
  induction calls generalizing q with
  | nil => exact (List.append_nil _).symm
  | cons c rest ih =>
    rw [run_cons, settledIds_append, List.append_assoc, ih, ← List.append_assoc, ledger_call,
      List.append_assoc]
    rfl

/-! ## Numbers -/

theorem nextId_route (q : WorkQueue) (frame : Frame) :
    (q.route frame).queue.nextId = q.nextId := by
  unfold route
  split
  · rfl
  · unfold routeReply
    split
    · rfl
    · split
      · unfold routeUnasked
        split <;> rfl
      · unfold routeTo
        split <;> rfl

/-- A call brings nothing into the queue, or one operation under the next number. -/
theorem accepts_cases (q : WorkQueue) (c : QueueCall) :
    (q.accepts c = [] ∧ (q.call c).1.nextId = q.nextId) ∨
      (q.accepts c = [q.nextId] ∧ (q.call c).1.nextId = q.nextId + 1) := by
  cases c with
  | enqueue operation =>
    unfold accepts call enqueue
    cases q.closed with
    | some reason => exact Or.inl ⟨rfl, rfl⟩
    | none => exact Or.inr ⟨rfl, rfl⟩
  | route frame => exact Or.inl ⟨rfl, nextId_route q frame⟩
  | subscribe | unsubscribe | close => exact Or.inl ⟨rfl, rfl⟩

/-- The accepted operations are numbered from the next number on, without a gap. -/
theorem accepted_eq_range' (q : WorkQueue) (calls : List QueueCall) :
    q.accepted calls = List.range' q.nextId (q.accepted calls).length := by
  induction calls generalizing q with
  | nil => rfl
  | cons c rest ih =>
    have htail := ih (q.call c).1
    rcases accepts_cases q c with ⟨hc, hnext⟩ | ⟨hc, hnext⟩
    · rw [hnext] at htail
      rw [accepted, hc, List.nil_append]
      exact htail
    · rw [hnext] at htail
      rw [accepted, hc, List.singleton_append, List.length_cons, List.range'_succ, ← htail]

theorem accepted_nodup (q : WorkQueue) (calls : List QueueCall) : (q.accepted calls).Nodup := by
  rw [accepted_eq_range']
  exact List.nodup_range'

/-! ## After the first close -/

/-- A queue that was closed for a reason: nothing waits in it. -/
structure Shut (q : WorkQueue) (reason : ConnectionError) : Prop where
  entries : q.entries = []
  closed : q.closed = some reason

theorem Shut.enqueue {q : WorkQueue} {reason : ConnectionError} (h : q.Shut reason)
    (operation : Operation) : q.enqueue operation = .error reason :=
  enqueue_of_closed h.closed operation

theorem closed_route (q : WorkQueue) (frame : Frame) :
    (q.route frame).queue.closed = q.closed := by
  unfold route
  split
  · rfl
  · unfold routeReply
    split
    · rfl
    · split
      · unfold routeUnasked
        split <;> rfl
      · unfold routeTo
        split <;> rfl

/-- Nothing can be brought into a queue that was closed, and its reason stays. -/
theorem Shut.call {q : WorkQueue} {reason : ConnectionError} (h : q.Shut reason) (c : QueueCall) :
    (q.call c).1.Shut reason := by
  have hids : q.ids = [] := by rw [ids, h.entries]; rfl
  have hentries : (q.call c).1.entries = [] := by
    have hl := ledger_call q c
    have ha : q.accepts c = [] := by
      cases c with
      | enqueue operation => simp [accepts, h.enqueue]
      | _ => rfl
    rw [hids, ha] at hl
    exact List.map_eq_nil_iff.mp (List.append_eq_nil_iff.mp hl).2
  refine ⟨hentries, ?_⟩
  cases c with
  | enqueue operation => simp [WorkQueue.call, h.enqueue, h.closed]
  | route frame => exact (closed_route q frame).trans h.closed
  | close reason' =>
    show some (q.closed.getD reason') = _
    rw [h.closed]
    rfl
  | subscribe | unsubscribe => exact h.closed

theorem Shut.run {q : WorkQueue} {reason : ConnectionError} (h : q.Shut reason)
    (calls : List QueueCall) : (q.run calls).1.Shut reason := by
  induction calls generalizing q with
  | nil => exact h
  | cons c rest ih => exact ih (h.call c)

/-- No call but `close` closes a queue. -/
theorem closed_call {q : WorkQueue} (h : q.closed = none) {c : QueueCall}
    (hc : ∀ reason, c ≠ .close reason) : (q.call c).1.closed = none := by
  cases c with
  | enqueue operation => simp [call, enqueue, h]
  | route frame => exact (closed_route q frame).trans h
  | close reason => exact absurd rfl (hc reason)
  | subscribe | unsubscribe => exact h

theorem closed_run {q : WorkQueue} (h : q.closed = none) {calls : List QueueCall}
    (hc : ∀ reason, .close reason ∉ calls) : (q.run calls).1.closed = none := by
  induction calls generalizing q with
  | nil => exact h
  | cons c rest ih =>
    refine ih (closed_call h fun reason hr => hc reason ?_) fun reason hr => hc reason ?_
    · rw [hr]
      exact List.mem_cons_self
    · exact List.mem_cons_of_mem _ hr

/-- The first close leaves a queue shut for its reason, whatever is called afterwards. -/
theorem shut_of_first_close (before : List QueueCall) (reason : ConnectionError)
    (after : List QueueCall) (h : ∀ r, .close r ∉ before) :
    ((({} : WorkQueue).run (before ++ .close reason :: after)).1).Shut reason := by
  have hopen : (({} : WorkQueue).run before).1.closed = none := closed_run rfl h
  rw [run_append, run_cons]
  refine Shut.run ⟨rfl, ?_⟩ after
  show some ((({} : WorkQueue).run before).1.closed.getD reason) = some reason
  rw [hopen]
  rfl

/-- **Every operation settles exactly once.**  Whatever is called on a fresh queue, an accepted
operation waits and has not been settled, or has left the queue and was settled once; operations
are settled in the order in which they were accepted; and from the first close on nothing waits
and every operation is refused for the reason of that close.  A client that closes the queue when a
frame cannot be routed makes that close as one of the calls. -/
theorem settled_exactly_once (calls : List QueueCall) :
    let queue := (({} : WorkQueue).run calls).1
    let settled := settledIds (({} : WorkQueue).run calls).2
    let accepted := ({} : WorkQueue).accepted calls
    accepted.Nodup ∧
    (∀ id ∈ accepted,
      (id ∈ queue.ids ∧ settled.count id = 0) ∨ (id ∉ queue.ids ∧ settled.count id = 1)) ∧
    settled <+: accepted ∧
    ∀ before reason after, calls = before ++ .close reason :: after → (∀ r, .close r ∉ before) →
      queue.entries = [] ∧ ∀ operation, queue.enqueue operation = .error reason := by
  intro queue settled accepted
  have hledger : settled ++ queue.ids = accepted := ledger_run {} calls
  have hnodup : accepted.Nodup := accepted_nodup {} calls
  refine ⟨hnodup, ?_, ⟨queue.ids, hledger⟩, ?_⟩
  · intro id hid
    have hone : settled.count id + queue.ids.count id = 1 := by
      rw [← List.count_append, hledger]
      exact List.count_eq_one_of_mem hnodup hid
    by_cases hwaits : id ∈ queue.ids
    · have hpos : 0 < queue.ids.count id := List.count_pos_iff.mpr hwaits
      exact Or.inl ⟨hwaits, by omega⟩
    · have hzero : queue.ids.count id = 0 := List.count_eq_zero.mpr hwaits
      exact Or.inr ⟨hwaits, by omega⟩
  · rintro before reason after rfl hfirst
    have hshut : queue.Shut reason := shut_of_first_close before reason after hfirst
    exact ⟨hshut.entries, hshut.enqueue⟩

end WorkQueue

end DocWire
