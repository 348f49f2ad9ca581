import DocWire.Proofs.Queue.Alone

/-!
# Answers of the server

The answer to a statement announces columns and sends rows, result set by result set, and ends with
one message; the answer to anything else is one message.  Notices may come anywhere.  An operation
that gets such an answer waits for all of it and for nothing else.

* `StatementAnswer`, `SingleAnswer`, `Round.WellFormed`   the answers;
* `Operation.AnsweredBy`   an operation goes on until the last frame and ends with it;
* `take_row`, `take_setEnd`, …   what a statement does with a frame of its answer;
* `Round.answeredBy`       well-formed answers are waited for to their last frame;
* `Round.awaits`, `Round.ended`   what an operation does alone with its answer;
* `Round.Exact`            it goes on until it was handed the whole answer.
-/

namespace DocWire

namespace Reply

/-- the end of a result set -/
def endsResultSet : Reply → Bool
  | fetchDone | fetchDoneMoreResultsets | fetchDoneMoreOutParams => true
  | _ => false

/-- the end of a statement -/
def endsStatement : Reply → Bool
  | ok _ | executeOk | error _ => true
  | _ => false

/-- an error with which the connection is lost -/
def isFatal : Reply → Bool
  | error e => e.fatal
  | _ => false

/-- an answer to something that one message answers -/
def isAnswer : Reply → Bool
  | notice _ => false
  | _ => true

end Reply

/-- The rest of the answer to a statement.  `columns` are announced for the result set that is
arriving, and `fixed` tells whether a row of it has come.  Frames of an unknown type are passed
over.  No cursor is opened, so no result set is suspended. -/
inductive StatementAnswer : List Column → Bool → List Frame → Prop
  | notice {columns fixed frame rest n} (h : Reply.decode frame = .ok (.notice n))
      (hrest : StatementAnswer columns fixed rest) : StatementAnswer columns fixed (frame :: rest)
  | unknown {columns fixed frame rest tag} (h : Reply.decode frame = .ok (.unknown tag))
      (hrest : StatementAnswer columns fixed rest) : StatementAnswer columns fixed (frame :: rest)
  | column {columns frame rest c} (h : Reply.decode frame = .ok (.column c))
      (hrest : StatementAnswer (columns ++ [c]) false rest) :
      StatementAnswer columns false (frame :: rest)
  | row {columns fixed frame rest fields r} (h : Reply.decode frame = .ok (.row fields))
      (hcolumns : columns ≠ []) (hrow : Row.decode columns fields = .ok r)
      (hrest : StatementAnswer columns true rest) : StatementAnswer columns fixed (frame :: rest)
  | setEnd {columns fixed frame rest reply} (h : Reply.decode frame = .ok reply)
      (hend : reply.endsResultSet = true) (hrest : StatementAnswer [] false rest) :
      StatementAnswer columns fixed (frame :: rest)
  | last {columns fixed frame reply} (h : Reply.decode frame = .ok reply)
      (hend : reply.endsStatement = true) (hfatal : reply.isFatal = false) :
      StatementAnswer columns fixed [frame]

/-- The answer to something that one message answers. -/
inductive SingleAnswer : List Frame → Prop
  | notice {frame rest n} (h : Reply.decode frame = .ok (.notice n)) (hrest : SingleAnswer rest) :
      SingleAnswer (frame :: rest)
  | last {frame reply} (h : Reply.decode frame = .ok reply) (hanswer : reply.isAnswer = true)
      (hfatal : reply.isFatal = false) : SingleAnswer [frame]

/-- What is asked for, and the frames with which the server answers. -/
structure Round where
  request : Ask
  answer : List Frame

/-- The answer is one to what is asked for. -/
def Round.WellFormed (r : Round) : Prop :=
  match r.request with
  | .statement => StatementAnswer [] false r.answer
  | .single => SingleAnswer r.answer

/-- Whether an ending is what the caller waits for. -/
def Settlement.isFor : Settlement → Ask → Bool
  | outcome _, .statement | reply _, .single => true
  | _, _ => false

/-- An operation goes on with every frame but the last, ends with the last one, and the connection
goes on. -/
inductive Operation.AnsweredBy (what : Ask) : Operation → List Frame → Prop
  | more {o next frame rest} (hnext : (o.take frame).next = some next)
      (hrespond : o.respond frame = .ok []) (hrest : AnsweredBy what next rest) :
      AnsweredBy what o (frame :: rest)
  | last {o frame s} (hnext : (o.take frame).next = none) (hrespond : o.respond frame = .ok [])
      (htells : (o.take frame).tells o = [.settled s]) (hs : s.isFor what = true) :
      AnsweredBy what o [frame]

namespace Operation.AnsweredBy

variable {what : Ask} {o next : Operation} {frame : Frame} {reply : Reply} {rest : List Frame}

theorem pending (hd : Reply.decode frame = .ok reply) {events : List ResultEvent}
    (ht : o.take frame = .pending next events) (hrest : AnsweredBy what next rest) :
    AnsweredBy what o (frame :: rest) := by
  refine .more ?_ ?_ hrest
  · rw [ht]
    rfl
  · unfold Operation.respond
    rw [hd, ht]
    rfl

theorem settled (hd : Reply.decode frame = .ok reply) {s : Settlement}
    (ht : o.take frame = .settled s) (hs : s.isFor what = true) : AnsweredBy what o [frame] := by
  refine .last ?_ ?_ ?_ hs
  · rw [ht]
    rfl
  · unfold Operation.respond
    rw [hd, ht]
    rfl
  · rw [ht]
    rfl

theorem failed (hd : Reply.decode frame = .ok reply) {e : ConnectionError}
    (ht : o.take frame = .failed e) (he : e.isFatal = false) (hs : (o.fail e).isFor what = true) :
    AnsweredBy what o [frame] := by
  refine .last ?_ ?_ ?_ hs
  · rw [ht]
    rfl
  · unfold Operation.respond
    rw [hd, ht]
    exact if_neg (fun h => Bool.false_ne_true (he.symm.trans h))
  · rw [ht]
    rfl

theorem ne_nil {frames : List Frame} (h : AnsweredBy what o frames) : frames ≠ [] := by
  cases h <;> exact List.cons_ne_nil _ _

end Operation.AnsweredBy

/-! ## Statements -/

/-- The builder of a result set for which columns are announced, with or without rows of it. -/
def ResultSetBuilder.arriving (columns : List Column) : Bool → ResultSetBuilder
  | false => ⟨columns, none⟩
  | true => ⟨[], some columns⟩

/-- what is told of columns before the first row, or the end, of their result set -/
def ResultEvent.announce : List Column → Bool → List ResultEvent
  | c :: rest, false => [.metadata (c :: rest)]
  | _, _ => []

open ResultSetBuilder (arriving)
open ResultEvent (announce)

theorem ResultSetBuilder.row_arriving {columns : List Column} (hcolumns : columns ≠ [])
    (fixed : Bool) (fields : List (List UInt8)) :
    (arriving columns fixed).row fields
      = ((Row.decode columns fields).map fun r => announce columns fixed ++ [.row r],
          arriving columns true) := by
  cases columns with
  | nil => exact absurd rfl hcolumns
  | cons c rest => cases fixed <;> rfl

theorem ResultSetBuilder.finish_arriving (columns : List Column) (fixed hasMore : Bool) :
    (arriving columns fixed).finish hasMore
      = (announce columns fixed ++ [.setEnd hasMore], arriving [] false) := by
  cases columns <;> cases fixed <;> rfl

section
variable {columns : List Column} {fixed : Bool} {outcome : Outcome} {frame : Frame}

theorem take_notice {n : ServerNotice} (hd : Reply.decode frame = .ok (.notice n)) :
    (Operation.statement (arriving columns fixed) outcome).take frame
      = .pending (.statement (arriving columns fixed)
          (if n.isLocal then outcome.apply n.notice else outcome)) [] := by
  rw [WorkQueue.take_of_notice hd]
  cases n.isLocal <;> rfl

theorem take_unknown {tag : UInt8} (hd : Reply.decode frame = .ok (.unknown tag)) :
    (Operation.statement (arriving columns fixed) outcome).take frame
      = .pending (.statement (arriving columns fixed) outcome) [] :=
  WorkQueue.take_of_reply hd (fun _ h => by cases h) _

theorem take_column {c : Column} (hd : Reply.decode frame = .ok (.column c)) :
    (Operation.statement (arriving columns false) outcome).take frame
      = .pending (.statement (arriving (columns ++ [c]) false) outcome) [] :=
  WorkQueue.take_of_reply hd (fun _ h => by cases h) _

theorem take_row {fields : List (List UInt8)} {r : Row}
    (hd : Reply.decode frame = .ok (.row fields)) (hcolumns : columns ≠ [])
    (hrow : Row.decode columns fields = .ok r) :
    (Operation.statement (arriving columns fixed) outcome).take frame
      = .pending (.statement (arriving columns true) outcome)
          (announce columns fixed ++ [.row r]) := by
  rw [WorkQueue.take_of_reply hd (fun _ h => by cases h)]
  have hr := ResultSetBuilder.row_arriving hcolumns fixed fields
  rw [hrow] at hr
  show Operation.handleStatement _ _ (.row fields) = _
  simp only [Operation.handleStatement, hr, Except.map]

/-- whether another result set of the statement follows a message -/
def Reply.hasMore : Reply → Bool
  | .fetchDoneMoreResultsets | .fetchDoneMoreOutParams => true
  | _ => false

theorem take_setEnd {reply : Reply} (hd : Reply.decode frame = .ok reply)
    (hend : reply.endsResultSet = true) :
    (Operation.statement (arriving columns fixed) outcome).take frame
      = .pending (.statement (arriving [] false) outcome)
          (announce columns fixed ++ [.setEnd reply.hasMore]) := by
  have hr : ∀ n, reply ≠ .notice n := by
    rintro n rfl
    cases hend
  rw [WorkQueue.take_of_reply hd hr]
  have hf := ResultSetBuilder.finish_arriving columns fixed
  cases reply with
  | fetchDone | fetchDoneMoreResultsets | fetchDoneMoreOutParams =>
    simp only [Operation.handle, Operation.handleStatement, hf, Reply.hasMore]
  | _ => cases hend

end

theorem StatementAnswer.answeredBy {columns : List Column} {fixed : Bool} {frames : List Frame}
    (h : StatementAnswer columns fixed frames) (outcome : Outcome) :
    (Operation.statement (arriving columns fixed) outcome).AnsweredBy .statement frames := by
  induction h generalizing outcome with
  | notice hd _ ih => exact .pending hd (take_notice hd) (ih _)
  | unknown hd _ ih => exact .pending hd (take_unknown hd) (ih outcome)
  | column hd _ ih => exact .pending hd (take_column hd) (ih outcome)
  | row hd hcolumns hrow _ ih => exact .pending hd (take_row hd hcolumns hrow) (ih outcome)
  | setEnd hd hend _ ih => exact .pending hd (take_setEnd hd hend) (ih outcome)
  | @last columns fixed frame reply hd hend hfatal =>
    have hr : ∀ n, reply ≠ .notice n := by
      rintro n rfl
      cases hend
    have ht := WorkQueue.take_of_reply hd hr (.statement (arriving columns fixed) outcome)
    cases reply with
    | ok info => exact .settled hd ht rfl
    | executeOk => exact .settled hd ht rfl
    | error e => exact .failed hd ht hfatal rfl
    | _ => cases hend

/-! ## Single messages -/

theorem SingleAnswer.answeredBy {frames : List Frame} (h : SingleAnswer frames) :
    Operation.single.AnsweredBy .single frames := by
  induction h with
  | @notice frame rest n hd _ ih =>
    have ht : Operation.single.take frame = .pending .single [] := by
      rw [WorkQueue.take_of_notice hd]
      cases n.isLocal <;> rfl
    exact .pending hd ht ih
  | @last frame reply hd hanswer hfatal =>
    have hr : ∀ n, reply ≠ .notice n := by
      rintro n rfl
      cases hanswer
    have ht := WorkQueue.take_of_reply hd hr .single
    cases reply with
    | error e => exact .failed hd ht hfatal rfl
    | notice n => cases hanswer
    | _ => exact .settled hd ht rfl

/-- **A well-formed answer is waited for to its last frame.** -/
theorem Round.answeredBy {r : Round} (h : r.WellFormed) :
    r.request.operation.AnsweredBy r.request r.answer := by
  obtain ⟨request, answer⟩ := r
  cases request with
  | statement => exact @StatementAnswer.answeredBy [] false _ h {}
  | single => exact SingleAnswer.answeredBy h

/-! ## Alone with the answer -/

/-- what an operation does alone that waits for more frames -/
structure Course.Awaits (a : Course) (what : Ask) (todo : List Frame) : Prop where
  entries : ∃ o : Operation, a.desk.queue.entries = [⟨0, o⟩] ∧ o.AnsweredBy what todo
  results : ∀ x ∈ a.log, x.result = .ok []
  unsettled : ∀ s, Told.settled s ∉ told 0 a.given

/-- what an operation has done alone that got its answer -/
structure Course.Ended (a : Course) (what : Ask) : Prop where
  entries : a.desk.queue.entries = []
  results : ∀ x ∈ a.log, x.result = .ok []
  settled : ∃ before s, told 0 a.given = before ++ [.settled s] ∧
    (∀ s, Told.settled s ∉ before) ∧ s.isFor what = true

theorem Progress.unsettled_of_next {p : Progress} {o next : Operation} (h : p.next = some next)
    (s : Settlement) : Told.settled s ∉ p.tells o := by
  cases p with
  | pending _ events =>
    intro hmem
    obtain ⟨_, _, he⟩ := List.mem_map.mp hmem
    cases he
  | reply _ _ => exact List.not_mem_nil
  | settled _ => cases h
  | failed _ => cases h

section
variable {a : Course} {what : Ask} {frame : Frame} {todo : List Frame}

theorem Course.Awaits.results_step (h : a.Awaits what todo) {o : Operation}
    (hq : a.desk.queue.entries = [⟨0, o⟩]) (hrespond : o.respond frame = .ok []) :
    ∀ x ∈ (a.step (.route frame)).log, x.result = .ok [] := by
  intro x hx
  rcases List.mem_append.mp hx with hold | hnew
  · exact h.results x hold
  · rw [List.mem_singleton.mp hnew]
    exact (WorkQueue.result_route hq frame).trans hrespond

/-- One more frame of the answer. -/
theorem Course.Awaits.step (h : a.Awaits what (frame :: todo)) :
    (todo ≠ [] ∧ (a.step (.route frame)).Awaits what todo) ∨
      (todo = [] ∧ (a.step (.route frame)).Ended what) := by
  obtain ⟨o, hq, hanswered⟩ := h.entries
  have htold : told 0 (a.step (.route frame)).given
      = told 0 a.given ++ (o.take frame).tells o := by
    show told 0 (a.given ++ (a.desk.queue.route frame).deliveries) = _
    rw [told_append, WorkQueue.told_route hq, if_pos rfl]
  have hentries : (a.step (.route frame)).desk.queue.entries
      = ((o.take frame).next.map (Queued.mk 0)).toList := by
    have he := WorkQueue.entries_route hq frame
    rw [List.append_nil] at he
    exact he
  cases hanswered with
  | more hnext hrespond hrest =>
    refine Or.inl ⟨hrest.ne_nil, ⟨_, ?_, hrest⟩, h.results_step hq hrespond, ?_⟩
    · rw [hentries, hnext]
      rfl
    · intro s hs
      rw [htold] at hs
      rcases List.mem_append.mp hs with hold | hnew
      · exact h.unsettled s hold
      · exact Progress.unsettled_of_next hnext s hnew
  | last hnext hrespond htells hs =>
    refine Or.inr ⟨rfl, ?_, h.results_step hq hrespond, ?_⟩
    · rw [hentries, hnext]
      rfl
    · exact ⟨told 0 a.given, _, by rw [htold, htells], h.unsettled, hs⟩

end

namespace Round

variable {r : Round}

/-- **While frames of its answer are missing, an operation waits for them.** -/
theorem awaits (h : r.WellFormed) {part todo : List Frame} (hsplit : r.answer = part ++ todo)
    (htodo : todo ≠ []) : (Course.alone r.request part).Awaits r.request todo := by
  induction part using List.reverseRecOn generalizing todo with
  | nil =>
    have hanswered := answeredBy h
    rw [hsplit, List.nil_append] at hanswered
    refine ⟨⟨r.request.operation, ?_, hanswered⟩, ?_, ?_⟩
    · cases r.request <;> rfl
    · cases r.request <;> exact fun _ hx => absurd hx List.not_mem_nil
    · cases r.request <;> exact fun _ hs => absurd hs List.not_mem_nil
  | append_singleton part frame ih =>
    rw [Course.alone_concat]
    rw [List.append_assoc, List.singleton_append] at hsplit
    rcases (ih hsplit (List.cons_ne_nil _ _)).step with ⟨_, hawaits⟩ | ⟨hnil, _⟩
    · exact hawaits
    · exact absurd hnil htodo

/-- **With the last frame of its answer, an operation ends.** -/
theorem ended (h : r.WellFormed) : (Course.alone r.request r.answer).Ended r.request := by
  have hne : r.answer ≠ [] := (answeredBy h).ne_nil
  have hsplit : r.answer = r.answer.dropLast ++ [r.answer.getLast hne] :=
    (List.dropLast_append_getLast hne).symm
  rw [hsplit, Course.alone_concat]
  rcases (awaits h hsplit (List.cons_ne_nil _ _)).step with ⟨hne, _⟩ | ⟨_, hended⟩
  · exact absurd rfl hne
  · exact hended

theorem results (h : r.WellFormed) {part todo : List Frame} (hsplit : r.answer = part ++ todo) :
    ∀ x ∈ (Course.alone r.request part).log, x.result = .ok [] := by
  by_cases htodo : todo = []
  · rw [htodo, List.append_nil] at hsplit
    rw [← hsplit]
    exact (ended h).results
  · exact (awaits h hsplit htodo).results

/-- The operation goes on until it was handed the whole answer. -/
def Exact (r : Round) : Prop :=
  ∀ part todo, r.answer = part ++ todo → (r.request.operation.through part = none ↔ todo = [])

theorem Exact.ne_nil (h : r.Exact) : r.answer ≠ [] := by
  intro hnil
  have hthrough := (h [] r.answer rfl).mpr hnil
  rw [through_nil] at hthrough
  cases hthrough

theorem exact_of_wellFormed (h : r.WellFormed) : r.Exact := by
  intro part todo hsplit
  constructor
  · intro hthrough
    by_contra htodo
    obtain ⟨o, ho, _⟩ := (awaits h hsplit htodo).entries
    rw [Course.entries_alone, hthrough] at ho
    cases ho
  · rintro rfl
    rw [List.append_nil] at hsplit
    have hentries := (ended h).entries
    rw [Course.entries_alone, hsplit] at hentries
    cases hthrough : r.request.operation.through part with
    | none => rfl
    | some o =>
      rw [hthrough] at hentries
      cases hentries

end Round

end DocWire
