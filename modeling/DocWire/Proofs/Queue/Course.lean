import DocWire.Proofs.Queue.Head
import DocWire.Proofs.Queue.Ledger
import DocWire.Queue.Desk
import Mathlib.Data.List.Induction

/-!
# The course of a desk

Callers ask for statements and for single messages, frames are routed, executions are read to their
end or dropped, in any order.  A course is the desk together with the record of what happened.

* `Ask`, `DeskStep`, `Course.after`   the steps, and the course of them;
* `Course.share`            the frames that came while an operation was at the head;
* `Course.alone`            one operation that nothing else waits with;
* `Course.numbered`         operations are numbered in the order in which they were asked for.
-/

namespace DocWire

/-- What a caller asks for. -/
inductive Ask
  | statement
  /-- something that one message answers -/
  | single
deriving DecidableEq

def Ask.operation : Ask → Operation
  | statement => .newStatement
  | single => .single

/-- What happens at a desk. -/
inductive DeskStep
  | ask (what : Ask)
  | route (frame : Frame)
  /-- an execution is read to its end, or dropped -/
  | consume (execution : Nat)

namespace DeskStep

def asked (steps : List DeskStep) : List Ask :=
  steps.filterMap fun | .ask what => some what | _ => none

/-- the frames that are routed in steps, in order -/
def routed (steps : List DeskStep) : List Frame :=
  steps.filterMap fun | .route frame => some frame | _ => none

/-- the executions that are given up in steps -/
def consumed (steps : List DeskStep) : List Nat :=
  steps.filterMap fun | .consume n => some n | _ => none

theorem asked_append (a b : List DeskStep) : asked (a ++ b) = asked a ++ asked b :=
  List.filterMap_append
theorem routed_append (a b : List DeskStep) : routed (a ++ b) = routed a ++ routed b :=
  List.filterMap_append
theorem consumed_append (a b : List DeskStep) : consumed (a ++ b) = consumed a ++ consumed b :=
  List.filterMap_append

/-- Frames ask for nothing and give nothing up. -/
theorem of_routes (frames : List Frame) : asked (frames.map .route) = [] ∧
    routed (frames.map .route) = frames ∧ consumed (frames.map .route) = [] := by
  induction frames with
  | nil => exact ⟨rfl, rfl, rfl⟩
  | cons frame rest ih =>
    obtain ⟨hasked, hrouted, hconsumed⟩ := ih
    exact ⟨hasked, congrArg (frame :: ·) hrouted, hconsumed⟩

end DeskStep

/-- Makes a caller wait for an answer. -/
def Desk.ask (d : Desk) : Ask → Desk
  | .statement => d.execute.2
  | .single => (d.request .single).2

/-- A frame that was routed. -/
structure Handling where
  /-- the operation at the head when it came -/
  head : Option Nat
  frame : Frame
  /-- what the server is answered, or why the connection is lost -/
  result : Except ConnectionError (List Request)

/-- The operation that was handed the frame: the one at the head, if the frame was for it. -/
def Handling.recipient (x : Handling) : Option Nat := if x.frame.isAddressed then x.head else none

theorem Handling.head_of_recipient {x : Handling} {id : Nat} (h : x.recipient = some id) :
    x.head = some id := by
  unfold Handling.recipient at h
  split at h
  · exact h
  · cases h

/-- A desk, and the record of what has happened at it. -/
structure Course where
  desk : Desk := {}
  /-- the frames that were routed -/
  log : List Handling := []
  /-- what was given to callers and subscribers -/
  given : List Delivery := []

namespace Course

/-- what happened to the frames that came while an operation was at the head -/
def logOf (c : Course) (id : Nat) : List Handling := c.log.filter (·.head = some id)

/-- The frames that came while an operation was at the head, in order. -/
def share (c : Course) (id : Nat) : List Frame := (c.logOf id).map Handling.frame

/-- The frames that an operation was handed, in order. -/
def handed (c : Course) (id : Nat) : List Frame :=
  (c.log.filter (·.recipient = some id)).map Handling.frame

def step (c : Course) : DeskStep → Course
  | .ask what => { c with desk := c.desk.ask what }
  | .route frame =>
    { desk := (c.desk.route frame).2
      log := c.log ++ [⟨c.desk.queue.ids.head?, frame, (c.desk.route frame).1⟩]
      given := c.given ++ (c.desk.queue.route frame).deliveries }
  | .consume n =>
    { c with desk := ⟨c.desk.queue, (c.desk.callers.consume n fun _ => ()).2⟩ }

def follow (c : Course) (steps : List DeskStep) : Course := steps.foldl step c

/-- The course of steps at a fresh desk. -/
def after (steps : List DeskStep) : Course := follow {} steps

/-- The course of one operation that is handed frames, where nothing else is asked for. -/
def alone (what : Ask) (frames : List Frame) : Course := after (.ask what :: frames.map .route)

theorem after_concat (steps : List DeskStep) (s : DeskStep) :
    after (steps ++ [s]) = (after steps).step s := List.foldl_concat ..
theorem after_append (a b : List DeskStep) : after (a ++ b) = (after a).follow b :=
  List.foldl_append

theorem alone_concat (what : Ask) (frames : List Frame) (frame : Frame) :
    alone what (frames ++ [frame]) = (alone what frames).step (.route frame) := by
  unfold alone
  rw [List.map_append, ← List.cons_append]
  exact after_concat _ _

theorem alone_append (what : Ask) (a b : List Frame) :
    alone what (a ++ b) = (alone what a).follow (b.map .route) := by
  unfold alone
  rw [List.map_append, ← List.cons_append]
  exact after_append _ _

theorem handed_eq (c : Course) (id : Nat) :
    c.handed id = (c.share id).filter Frame.isAddressed := by
  unfold handed share logOf
  rw [List.filter_map, List.filter_filter]
  refine congrArg (List.map Handling.frame) (List.filter_congr fun x _ => ?_)
  unfold Handling.recipient
  show decide ((if x.frame.isAddressed then x.head else none) = some id)
    = (x.frame.isAddressed && decide (x.head = some id))
  cases x.frame.isAddressed <;> rfl

theorem frames_log (steps : List DeskStep) :
    (after steps).log.map Handling.frame = DeskStep.routed steps := by
  induction steps using List.reverseRecOn with
  | nil => rfl
  | append_singleton steps s ih =>
    rw [after_concat, DeskStep.routed_append, ← ih]
    cases s with
    | route frame => exact List.map_append
    | ask what => exact (List.append_nil _).symm
    | consume n => exact (List.append_nil _).symm

/-! ## Asking -/

theorem ask_queue {d : Desk} (h : d.queue.closed = none) (what : Ask) :
    (d.ask what).queue
      = { d.queue with entries := d.queue.entries ++ [⟨d.queue.nextId, what.operation⟩],
                       nextId := d.queue.nextId + 1 } := by
  obtain ⟨⟨entries, nextId, closed, subscribers, nextSubscriber⟩, callers⟩ := d
  obtain rfl : closed = none := h
  cases what <;> rfl

theorem ask_callers {d : Desk} (h : d.queue.closed = none) (what : Ask) :
    (d.ask what).callers = match what with
      | .statement => { d.callers with
          executions := d.callers.executions ++ [⟨some d.queue.nextId, some {}⟩] }
      | .single => { d.callers with
          replies := d.callers.replies ++ [⟨some d.queue.nextId, some .pending⟩] } := by
  obtain ⟨⟨entries, nextId, closed, subscribers, nextSubscriber⟩, callers⟩ := d
  obtain rfl : closed = none := h
  cases what <;> rfl

/-- Operations are numbered from zero in the order in which they were asked for and wait in this
order; of those that have not been asked for nothing is known; and the desk is not closed. -/
structure Numbered (c : Course) (steps : List DeskStep) : Prop where
  closed : c.desk.queue.closed = none
  nextId : c.desk.queue.nextId = (DeskStep.asked steps).length
  ids : ∀ id ∈ c.desk.queue.ids, id < c.desk.queue.nextId
  sorted : c.desk.queue.ids.Pairwise (· < ·)
  log : ∀ x ∈ c.log, ∀ id, x.head = some id → id < c.desk.queue.nextId
  given : ∀ id, c.desk.queue.nextId ≤ id → told id c.given = []

theorem Numbered.ask {c : Course} {steps : List DeskStep} (h : c.Numbered steps) (what : Ask) :
    (c.step (.ask what)).Numbered (steps ++ [.ask what]) := by
  have hqueue : (c.step (.ask what)).desk.queue = _ := ask_queue h.closed what
  have hids : (c.step (.ask what)).desk.queue.ids = c.desk.queue.ids ++ [c.desk.queue.nextId] := by
    rw [hqueue]
    exact List.map_append
  have hnext : (c.step (.ask what)).desk.queue.nextId = c.desk.queue.nextId + 1 := by
    rw [hqueue]
  refine ⟨?_, ?_, ?_, ?_, ?_, ?_⟩
  · rw [hqueue]
    exact h.closed
  · rw [hnext, DeskStep.asked_append, List.length_append, ← h.nextId]
    rfl
  · intro id hid
    rw [hids] at hid
    rw [hnext]
    rcases List.mem_append.mp hid with hold | hnew
    · exact Nat.lt_succ_of_lt (h.ids id hold)
    · rw [List.mem_singleton.mp hnew]
      exact Nat.lt_succ_self _
  · rw [hids, List.pairwise_append]
    refine ⟨h.sorted, List.pairwise_singleton _ _, ?_⟩
    intro id hid new hnew
    rw [List.mem_singleton.mp hnew]
    exact h.ids id hid
  · intro x hx id hid
    rw [hnext]
    exact Nat.lt_succ_of_lt (h.log x hx id hid)
  · intro id hid
    rw [hnext] at hid
    exact h.given id (Nat.le_of_succ_le hid)

theorem Numbered.route {c : Course} {steps : List DeskStep} (h : c.Numbered steps)
    (frame : Frame) : (c.step (.route frame)).Numbered (steps ++ [.route frame]) := by
  have hnext : (c.step (.route frame)).desk.queue.nextId = c.desk.queue.nextId :=
    WorkQueue.nextId_route c.desk.queue frame
  have hsuffix : (c.step (.route frame)).desk.queue.ids <:+ c.desk.queue.ids :=
    WorkQueue.ids_route_suffix c.desk.queue frame
  refine ⟨(WorkQueue.closed_route _ frame).trans h.closed, ?_, ?_, ?_, ?_, ?_⟩
  · rw [hnext, DeskStep.asked_append, List.length_append]
    exact h.nextId
  · intro id hid
    rw [hnext]
    exact h.ids id (hsuffix.mem hid)
  · exact h.sorted.sublist hsuffix.sublist
  · intro x hx id hid
    rw [hnext]
    rcases List.mem_append.mp hx with hold | hnew
    · exact h.log x hold id hid
    · rw [List.mem_singleton.mp hnew] at hid
      exact h.ids id (List.mem_of_head? hid)
  · intro id hid
    rw [hnext] at hid
    have hnot : id ∉ c.desk.queue.ids := fun hmem => absurd (h.ids id hmem) (by omega)
    show told id (c.given ++ (c.desk.queue.route frame).deliveries) = []
    rw [told_append, h.given id hid, WorkQueue.told_route_of_not_mem hnot]
    rfl

theorem numbered (steps : List DeskStep) : (after steps).Numbered steps := by
  induction steps using List.reverseRecOn with
  | nil =>
    exact ⟨rfl, rfl, fun _ h => absurd h List.not_mem_nil, List.Pairwise.nil,
      fun _ h => absurd h List.not_mem_nil, fun _ _ => rfl⟩
  | append_singleton steps s ih =>
    rw [after_concat]
    cases s with
    | ask what => exact ih.ask what
    | route frame => exact ih.route frame
    | consume n =>
      refine ⟨ih.closed, ?_, ih.ids, ih.sorted, ih.log, ih.given⟩
      rw [DeskStep.asked_append, List.length_append]
      exact ih.nextId

end Course

end DocWire
