import DocWire.Proofs.Queue.Head
import DocWire.Proofs.Queue.Ledger

/-!
# Frames that the client does not understand

A frame may have a tag that the client does not know, or a notice of a type or about a parameter
that it does not know.  A statement passes over the first, and everyone over the second.

* `Frame.NotUnderstood`            the frames;
* `WorkQueue.PassedOver`           those that a queue passes over;
* `WorkQueue.route_of_passedOver`, `WorkQueue.route_of_not_passedOver`   what becomes of them;
* `WorkQueue.Strewn`               calls among which such frames are strewn;
* `WorkQueue.changesNothing_iff`   when nothing changes.
-/

namespace DocWire

open Protobuf

/-! ## The frames -/

def Reply.knownTags : List UInt8 := [0, 1, 2, 3, 4, 11, 12, 13, 14, 15, 16, 17, 18]

def Notice.knownTypes : List UInt32 := [warningType, variableType, stateType]

namespace Frame

def HasUnknownTag (frame : Frame) : Prop := frame.tag ∉ Reply.knownTags

instance (frame : Frame) : Decidable frame.HasUnknownTag :=
  inferInstanceAs (Decidable (frame.tag ∉ Reply.knownTags))

/-- the type, scope and message of the notice of a frame -/
def noticeParts? (frame : Frame) : Option (UInt32 × Bool × List UInt8) :=
  if frame.tag = 11 then (Record.ofBytes? frame.payload).bind ServerNotice.partsOf? else none

def HasUnknownNotice (frame : Frame) : Prop :=
  ∃ type isLocal body, frame.noticeParts? = some (type, isLocal, body) ∧ type ∉ Notice.knownTypes

def HasUnknownParameter (frame : Frame) : Prop :=
  ∃ isLocal body number values, frame.noticeParts? = some (Notice.stateType, isLocal, body) ∧
    (Record.ofBytes? body).bind Notice.stateOf? = some (number, values) ∧
    StateParameter.ofNumber? number.toInt = none

/-- Whether a frame is well-formed, and says what the client does not know. -/
def NotUnderstood (frame : Frame) : Prop :=
  frame.HasUnknownTag ∨ frame.HasUnknownNotice ∨ frame.HasUnknownParameter

variable {frame : Frame}

theorem HasUnknownTag.decode (h : frame.HasUnknownTag) :
    Reply.decode frame = .ok (.unknown frame.tag) := by
  have htag : frame.tag.toNat ∉ Reply.knownTags.map UInt8.toNat := by
    intro hmem
    obtain ⟨tag, hknown, heq⟩ := List.mem_map.mp hmem
    exact h (UInt8.toNat_inj.mp heq ▸ hknown)
  unfold Reply.decode
  dsimp only
  split
  all_goals first
    | rfl
    | (rename_i heq
       rw [heq] at htag
       exact absurd (by decide) htag)

theorem decode_of_noticeParts {type : UInt32} {isLocal : Bool} {body : List UInt8}
    (h : frame.noticeParts? = some (type, isLocal, body)) :
    Reply.decode frame = (Notice.ofBytes type body).map fun n => .notice ⟨isLocal, n⟩ := by
  unfold noticeParts? at h
  by_cases htag : frame.tag = 11
  · rw [if_pos htag] at h
    have hdecode : Reply.decode frame = (ServerNotice.ofBytes frame.payload).map .notice := by
      unfold Reply.decode
      rw [htag]
      rfl
    rw [hdecode]
    unfold ServerNotice.ofBytes
    rw [h]
    cases hnotice : Notice.ofBytes type body <;>
      simp only [readable, bind, Except.bind, hnotice, Except.map]
  · rw [if_neg htag] at h
    cases h

theorem HasUnknownNotice.decode (h : frame.HasUnknownNotice) :
    ∃ isLocal type, Reply.decode frame = .ok (.notice ⟨isLocal, .other type⟩) := by
  obtain ⟨type, isLocal, body, hparts, htype⟩ := h
  refine ⟨isLocal, type, ?_⟩
  have hnotice : Notice.ofBytes type body = .ok (.other type) := by
    unfold Notice.ofBytes
    rw [if_neg fun heq => htype (by rw [heq]; decide),
      if_neg fun heq => htype (by rw [heq]; decide),
      if_neg fun heq => htype (by rw [heq]; decide)]
  rw [decode_of_noticeParts hparts, hnotice]
  rfl

theorem HasUnknownParameter.decode (h : frame.HasUnknownParameter) :
    ∃ number, Reply.decode frame = .error (.undecodable (.stateParameter number)) := by
  obtain ⟨isLocal, body, number, values, hparts, hstate, hnumber⟩ := h
  refine ⟨number.toInt, ?_⟩
  have hnotice : Notice.ofBytes Notice.stateType body
      = .error (.undecodable (.stateParameter number.toInt)) := by
    unfold Notice.ofBytes
    rw [if_neg (by decide), if_neg (by decide), if_pos rfl, hstate]
    simp only [readable, bind, Except.bind, hnumber]
  rw [decode_of_noticeParts hparts, hnotice]
  rfl

end Frame

/-! ## What becomes of them -/

def Operation.isStatement : Operation → Bool
  | statement _ _ => true
  | single | authentication _ => false

/-- No message that is not known belongs to the answer of an authentication. -/
theorem Authentication.handle_unknown (a : Authentication) (tag : UInt8) :
    ∃ e b, a.handle (.unknown tag) = (.error e, b) := by
  unfold handle
  dsimp only
  split <;> exact ⟨_, _, rfl⟩

namespace WorkQueue

/-- Whether a queue passes over a frame that is not understood: a notice of a type that is not
known, or a tag that is not known unless an operation waits that is no statement. -/
def PassedOver (q : WorkQueue) (frame : Frame) : Prop :=
  frame.HasUnknownNotice ∨
    frame.HasUnknownTag ∧ ∀ head, q.entries.head? = some head → head.operation.isStatement = true

/-- A frame changes nothing: it is accepted without a reply, nobody that waits is told anything, no
operation is taken out, and whatever is called later, callers are told the same and every frame is
answered the same. -/
structure ChangesNothing (q : WorkQueue) (frame : Frame) : Prop where
  result : (q.route frame).result = .ok []
  untold : ∀ id, told id (q.route frame).deliveries = []
  ids : (q.route frame).queue.ids = q.ids
  later : ∀ calls id, told id ((q.route frame).queue.run calls).2 = told id (q.run calls).2
  answers : ∀ calls next, (((q.route frame).queue.run calls).1.route next).result
    = ((q.run calls).1.route next).result

section
variable {q : WorkQueue} {frame : Frame}

theorem route_of_unknownNotice (h : frame.HasUnknownNotice) :
    ∃ n, q.route frame = ⟨.ok [], q, q.subscribers.map (.notice · n)⟩ := by
  obtain ⟨isLocal, type, hdecode⟩ := h.decode
  refine ⟨⟨isLocal, .other type⟩, ?_⟩
  rw [route_of_notice hdecode]
  unfold routeNotice
  obtain ⟨entries, nextId, closed, subscribers, nextSubscriber⟩ := q
  cases entries with
  | nil => rfl
  | cons head rest =>
    obtain ⟨id, operation⟩ := head
    cases operation <;> cases isLocal <;> rfl

theorem route_of_unknownParameter (h : frame.HasUnknownParameter) :
    ∃ e, q.route frame = ⟨.error e, q, []⟩ := by
  obtain ⟨number, hdecode⟩ := h.decode
  exact ⟨_, route_of_error hdecode⟩

theorem route_of_unknownTag_passedOver (h : frame.HasUnknownTag)
    (hhead : ∀ head, q.entries.head? = some head → head.operation.isStatement = true) :
    q.route frame = ⟨.ok [], q, []⟩ := by
  cases hq : q.entries with
  | nil =>
    unfold route routeReply
    rw [h.decode]
    dsimp only
    rw [hq]
    rfl
  | cons head rest =>
    have hstatement := hhead head (by rw [hq]; rfl)
    rw [route_of_reply hq h.decode nofun]
    obtain ⟨id, operation⟩ := head
    cases operation with
    | statement b o =>
      show Routed.mk (.ok []) { q with entries := ⟨id, .statement b o⟩ :: rest } [] = _
      rw [← hq]
    | single | authentication a => cases hstatement

/-- An operation that is no statement is ended by a message that is not known. -/
theorem entries_of_unknownTag {head : Queued} {rest : List Queued} (h : frame.HasUnknownTag)
    (hq : q.entries = head :: rest) (hhead : head.operation.isStatement = false) :
    (q.route frame).queue.entries = rest := by
  rw [entries_route hq, take_of_reply h.decode nofun]
  have hnext : (head.operation.handle (.unknown frame.tag)).next = none := by
    cases hoperation : head.operation with
    | statement b o =>
      rw [hoperation] at hhead
      cases hhead
    | single => rfl
    | authentication a =>
      obtain ⟨e, b, he⟩ := a.handle_unknown frame.tag
      simp only [Operation.handle, he]
      rfl
  rw [hnext]
  rfl

/-- A frame that is passed over changes nothing in a queue. -/
theorem route_of_passedOver (h : q.PassedOver frame) :
    (q.route frame).result = .ok [] ∧ (q.route frame).queue = q ∧
      ∀ id, told id (q.route frame).deliveries = [] := by
  rcases h with hnotice | ⟨htag, hhead⟩
  · obtain ⟨n, hroute⟩ := route_of_unknownNotice hnotice (q := q)
    rw [hroute]
    exact ⟨rfl, rfl, fun id => told_notices id q.subscribers n⟩
  · rw [route_of_unknownTag_passedOver htag hhead]
    exact ⟨rfl, rfl, fun _ => rfl⟩

/-- A frame that is not understood and not passed over ends the connection, or the operation at
the head. -/
theorem route_of_not_passedOver (h : frame.NotUnderstood) (hnot : ¬ q.PassedOver frame) :
    (∃ e, (q.route frame).result = .error e) ∨
      ∃ head rest, q.entries = head :: rest ∧ (q.route frame).queue.entries = rest := by
  rcases h with htag | hnotice | hparameter
  · have hhead : ¬ ∀ head, q.entries.head? = some head → head.operation.isStatement = true :=
      fun hhead => hnot (Or.inr ⟨htag, hhead⟩)
    cases hq : q.entries with
    | nil =>
      rw [hq] at hhead
      exact absurd nofun hhead
    | cons head rest =>
      refine Or.inr ⟨head, rest, rfl, entries_of_unknownTag htag hq ?_⟩
      refine Bool.eq_false_iff.mpr fun hstatement => hhead fun other hother => ?_
      rw [hq] at hother
      cases hother
      exact hstatement
  · exact absurd (Or.inl hnotice) hnot
  · obtain ⟨e, hroute⟩ := route_of_unknownParameter hparameter (q := q)
    rw [hroute]
    exact Or.inl ⟨e, rfl⟩

/-! ## Frames strewn among calls -/

/-- Calls on a queue, and the same calls with frames among them that are passed over. -/
inductive Strewn : WorkQueue → List QueueCall → List QueueCall → Prop
  | none {q : WorkQueue} : Strewn q [] []
  | call {q : WorkQueue} {c calls strewn} (h : Strewn (q.call c).1 calls strewn) :
      Strewn q (c :: calls) (c :: strewn)
  | frame {q : WorkQueue} {frame : Frame} {calls strewn} (hframe : q.PassedOver frame)
      (h : Strewn q calls strewn) :
      Strewn q calls (.route frame :: strewn)

theorem Strewn.run {calls strewn : List QueueCall} (h : q.Strewn calls strewn) :
    (q.run strewn).1 = (q.run calls).1 ∧
      ∀ id, told id (q.run strewn).2 = told id (q.run calls).2 := by
  induction h with
  | none => exact ⟨rfl, fun _ => rfl⟩
  | call h ih =>
    rw [run_cons, run_cons]
    refine ⟨ih.1, fun id => ?_⟩
    rw [told_append, told_append, ih.2]
  | @frame q frame calls strewn hframe h ih =>
    obtain ⟨-, hqueue, htold⟩ := route_of_passedOver hframe
    have hcall : q.call (.route frame) = (q, (q.route frame).deliveries) := Prod.ext hqueue rfl
    rw [run_cons, hcall]
    refine ⟨ih.1, fun id => ?_⟩
    rw [told_append, htold, List.nil_append]
    exact ih.2 id

/-- **Frames that are not understood change nothing exactly where they are passed over**, and calls
among which such frames are strewn come to the same. -/
theorem changesNothing_iff (q : WorkQueue) :
    (∀ frame, frame.NotUnderstood → (q.ChangesNothing frame ↔ q.PassedOver frame)) ∧
      ∀ calls strewn, q.Strewn calls strewn → (q.run strewn).1 = (q.run calls).1 ∧
        ∀ id, told id (q.run strewn).2 = told id (q.run calls).2 := by
  refine ⟨fun frame hframe => ⟨fun hnothing => ?_, fun hpassed => ?_⟩, fun _ _ h => h.run⟩
  · by_contra hnot
    rcases route_of_not_passedOver hframe hnot with ⟨e, hresult⟩ | ⟨head, rest, hq, hrest⟩
    · rw [hnothing.result] at hresult
      cases hresult
    · have hlength := congrArg List.length hnothing.ids
      unfold WorkQueue.ids at hlength
      rw [hq, hrest, List.length_map, List.length_map, List.length_cons] at hlength
      omega
  · obtain ⟨hresult, hqueue, htold⟩ := route_of_passedOver hpassed
    refine ⟨hresult, htold, ?_, fun calls id => ?_, fun calls next => ?_⟩
    · rw [hqueue]
    · rw [hqueue]
    · rw [hqueue]

theorem changesNothing_statement :
    Frame.NotUnderstood ⟨99, []⟩ ∧ PassedOver { entries := [⟨0, .newStatement⟩] } ⟨99, []⟩ ∧
      ChangesNothing { entries := [⟨0, .newStatement⟩] } ⟨99, []⟩ ∧
      Strewn { entries := [⟨0, .newStatement⟩] } [.route ⟨17, []⟩]
        [.route ⟨99, []⟩, .route ⟨17, []⟩, .route ⟨11, [8, 9]⟩] ∧
      told 0 (run { entries := [⟨0, .newStatement⟩] }
          [.route ⟨99, []⟩, .route ⟨17, []⟩, .route ⟨11, [8, 9]⟩]).2
        = told 0 (run { entries := [⟨0, .newStatement⟩] } [.route ⟨17, []⟩]).2 := by
  have htag : Frame.HasUnknownTag ⟨99, []⟩ := by decide
  have hpassed : PassedOver { entries := [⟨0, .newStatement⟩] } ⟨99, []⟩ :=
    Or.inr ⟨htag, fun head hhead => by cases hhead; rfl⟩
  have hnotice (q : WorkQueue) : q.PassedOver ⟨11, [8, 9]⟩ :=
    Or.inl ⟨9, false, [], rfl, by decide⟩
  have hstrewn : Strewn { entries := [⟨0, .newStatement⟩] } [.route ⟨17, []⟩]
      [.route ⟨99, []⟩, .route ⟨17, []⟩, .route ⟨11, [8, 9]⟩] :=
    .frame hpassed (.call (.frame (hnotice _) .none))
  obtain ⟨hframes, hcalls⟩ := changesNothing_iff { entries := [⟨0, .newStatement⟩] }
  exact ⟨Or.inl htag, hpassed, (hframes _ (Or.inl htag)).mpr hpassed, hstrewn,
    (hcalls _ _ hstrewn).2 0⟩

/-- A reply that a request waits for is taken to be the frame that is not understood, and the
frame with the reply is taken to be the next one.  A notice about a parameter that is not known
ends the connection. -/
theorem not_changesNothing_single :
    Frame.NotUnderstood ⟨99, []⟩ ∧
      ¬ ChangesNothing (run {} [.enqueue .single, .enqueue .single]).1 ⟨99, []⟩ ∧
      told 0 (run {} [.enqueue .single, .enqueue .single, .route ⟨99, []⟩, .route ⟨0, []⟩]).2
        = [.settled (.reply (.ok (.unknown 99)))] ∧
      told 1 (run {} [.enqueue .single, .enqueue .single, .route ⟨99, []⟩, .route ⟨0, []⟩]).2
        = [.settled (.reply (.ok (.ok none)))] ∧
      told 0 (run {} [.enqueue .single, .enqueue .single, .route ⟨0, []⟩]).2
        = [.settled (.reply (.ok (.ok none)))] ∧
      Frame.NotUnderstood ⟨11, [8, 3, 26, 2, 8, 8]⟩ ∧
      ¬ ChangesNothing {} ⟨11, [8, 3, 26, 2, 8, 8]⟩ := by
  refine ⟨Or.inl (by decide), fun h => ?_, rfl, rfl, rfl,
    Or.inr (Or.inr ⟨false, [8, 8], 8, [], rfl, rfl, rfl⟩), fun h => ?_⟩
  · cases h.ids
  · cases h.result

end

end WorkQueue

end DocWire
