import DocWire.Proofs.Queue.Answers

/-!
# Complete answers

The server ends every answer with one message, and does not know whether the client can read what
comes before it.  An operation that is handed a complete answer ends with some first part of it:
with the whole of it if the answer is well-formed, and else, unless the connection is lost, with
less.

* `Round.Complete`              an answer of the server, readable or not;
* `Round.Complete.exists_exact`   its first part with which the operation ends;
* `Round.Complete.wellFormed`   the answer is well-formed if that is all of it.
-/

namespace DocWire

def Ask.endedBy : Ask → Reply → Bool
  | .statement, reply => reply.endsStatement
  | .single, reply => reply.isAnswer

/-- An answer as the server sends it: messages the last of which, and no other, ends it. -/
structure Round.Complete (r : Round) : Prop where
  split : ∃ body last reply, r.answer = body ++ [last] ∧
    (∀ frame ∈ body, ∃ reply, Reply.decode frame = .ok reply ∧ r.request.endedBy reply = false) ∧
    Reply.decode last = .ok reply ∧ r.request.endedBy reply = true

/-! ## The end -/

namespace Operation

def IsOf : Operation → Ask → Prop
  | statement _ _, .statement | single, .single => True
  | _, _ => False

/-- A statement stays one. -/
theorem next_handleStatement {b : ResultSetBuilder} {outcome : Outcome} {reply : Reply}
    {next : Operation} (h : (handleStatement b outcome reply).next = some next) :
    ∃ b', next = statement b' outcome := by
  unfold handleStatement at h
  split at h
  · split at h
    · exact ⟨_, (Option.some.inj h).symm⟩
    · cases h
  · split at h
    · exact ⟨_, (Option.some.inj h).symm⟩
    · cases h
  · exact ⟨_, (Option.some.inj h).symm⟩
  · exact ⟨_, (Option.some.inj h).symm⟩
  · exact ⟨_, (Option.some.inj h).symm⟩
  · cases h
  · cases h
  · cases h
  · exact ⟨_, (Option.some.inj h).symm⟩
  · cases h

theorem isOf_take {o next : Operation} {what : Ask} (h : o.IsOf what) {frame : Frame}
    (hnext : (o.take frame).next = some next) : next.IsOf what := by
  rcases WorkQueue.decode_cases frame with ⟨e, hd⟩ | ⟨n, hd⟩ | ⟨reply, hd, hr⟩
  · rw [WorkQueue.take_of_error hd] at hnext
    rw [← Option.some.inj hnext]
    exact h
  · rw [WorkQueue.take_of_notice hd] at hnext
    rw [← Option.some.inj hnext]
    cases n.isLocal with
    | false => exact h
    | true => cases o <;> cases what <;> exact h
  · rw [WorkQueue.take_of_reply hd hr] at hnext
    cases o with
    | statement b outcome =>
      obtain ⟨b', rfl⟩ := next_handleStatement hnext
      cases what <;> exact h
    | single => cases reply <;> cases hnext
    | authentication a => exact absurd h id

theorem next_eq_none {o : Operation} {what : Ask} (h : o.IsOf what) {frame : Frame} {reply : Reply}
    (hd : Reply.decode frame = .ok reply) (hend : what.endedBy reply = true) :
    (o.take frame).next = none := by
  have hr : ∀ n, reply ≠ .notice n := by
    rintro n rfl
    cases what <;> cases hend
  rw [WorkQueue.take_of_reply hd hr]
  cases o with
  | statement b outcome =>
    cases what with
    | statement => cases reply <;> first | rfl | cases hend
    | single => exact absurd h id
  | single =>
    cases reply with
    | notice n => exact absurd rfl (hr n)
    | _ => rfl
  | authentication a => exact absurd h id

theorem isOf_through {o next : Operation} {what : Ask} (h : o.IsOf what) {frames : List Frame}
    (hnext : o.through frames = some next) : next.IsOf what := by
  induction frames generalizing o with
  | nil =>
    rw [through_nil] at hnext
    rw [← Option.some.inj hnext]
    exact h
  | cons frame rest ih =>
    rw [through_cons] at hnext
    obtain ⟨o', ho', hrest⟩ := Option.bind_eq_some_iff.mp hnext
    exact ih (isOf_take h ho') hrest

/-- An operation that ends with some of the frames it is handed ends with a first part of them. -/
theorem exists_end {o : Operation} {frames : List Frame} (h : o.through frames = none) :
    ∃ first rest, frames = first ++ rest ∧
      ∀ part todo, first = part ++ todo → (o.through part = none ↔ todo = []) := by
  induction frames generalizing o with
  | nil => cases h
  | cons frame rest ih =>
    rw [through_cons] at h
    cases hnext : (o.take frame).next with
    | none =>
      refine ⟨[frame], rest, rfl, fun part todo hsplit => ?_⟩
      cases part with
      | nil =>
        rw [List.nil_append] at hsplit
        rw [← hsplit, through_nil]
        exact iff_of_false (Option.some_ne_none o) (List.cons_ne_nil frame _)
      | cons f part =>
        rw [List.cons_append, List.cons.injEq] at hsplit
        obtain ⟨rfl, hnil⟩ := hsplit
        obtain ⟨rfl, rfl⟩ := List.append_eq_nil_iff.mp hnil.symm
        rw [through_cons, hnext]
        exact ⟨fun _ => rfl, fun _ => rfl⟩
    | some o' =>
      rw [hnext] at h
      obtain ⟨first, rest', rfl, hfirst⟩ := ih h
      refine ⟨frame :: first, rest', rfl, fun part todo hsplit => ?_⟩
      cases part with
      | nil =>
        rw [List.nil_append] at hsplit
        rw [← hsplit, through_nil]
        exact iff_of_false (Option.some_ne_none o) (List.cons_ne_nil frame _)
      | cons f part =>
        rw [List.cons_append, List.cons.injEq] at hsplit
        obtain ⟨rfl, hsplit⟩ := hsplit
        rw [through_cons, hnext]
        exact hfirst part todo hsplit

end Operation

namespace Round

variable {r : Round}

theorem isOf_operation (what : Ask) : what.operation.IsOf what := by
  cases what <;> exact True.intro

/-- **An operation ends with some first part of its complete answer.** -/
theorem Complete.exists_exact (h : r.Complete) :
    ∃ first rest, r.answer = first ++ rest ∧ (Round.mk r.request first).Exact := by
  obtain ⟨body, last, reply, hanswer, _, hd, hend⟩ := h.split
  have hnone : r.request.operation.through r.answer = none := by
    rw [hanswer, through_append]
    cases hbody : r.request.operation.through body with
    | none => rfl
    | some o =>
      have ho := Operation.isOf_through (isOf_operation r.request) hbody
      rw [Option.bind_some, through_cons, Operation.next_eq_none ho hd hend]
      rfl
  exact Operation.exists_end hnone

end Round

/-! ## Answers that are read to their end -/

/-- What a statement goes on with belongs to a well-formed answer. -/
theorem StatementAnswer.of_take {columns : List Column} {fixed : Bool} {outcome : Outcome}
    {frame : Frame} {reply : Reply} {next : Operation} (hcolumns : fixed = true → columns ≠ [])
    (hd : Reply.decode frame = .ok reply) (hgoes : reply.endsStatement = false)
    (hnext : ((Operation.statement (.arriving columns fixed) outcome).take frame).next
      = some next) :
    ∃ columns' fixed' outcome', next = .statement (.arriving columns' fixed') outcome' ∧
      (fixed' = true → columns' ≠ []) ∧
      ∀ rest, StatementAnswer columns' fixed' rest →
        StatementAnswer columns fixed (frame :: rest) := by
  by_cases hnotice : ∃ n, reply = .notice n
  · obtain ⟨n, rfl⟩ := hnotice
    rw [take_notice hd] at hnext
    exact ⟨columns, fixed, _, (Option.some.inj hnext).symm, hcolumns, fun _ => .notice hd⟩
  have hr : ∀ n, reply ≠ .notice n := fun n hn => hnotice ⟨n, hn⟩
  by_cases hset : reply.endsResultSet = true
  · rw [take_setEnd hd hset] at hnext
    exact ⟨[], false, _, (Option.some.inj hnext).symm, fun h => absurd h Bool.false_ne_true,
      fun _ => .setEnd hd hset⟩
  cases reply with
  | notice n => exact absurd rfl (hr n)
  | unknown tag =>
    rw [take_unknown hd] at hnext
    exact ⟨columns, fixed, _, (Option.some.inj hnext).symm, hcolumns, fun _ => .unknown hd⟩
  | column c =>
    cases fixed with
    | false =>
      rw [take_column hd] at hnext
      exact ⟨_, false, _, (Option.some.inj hnext).symm, fun h => absurd h Bool.false_ne_true,
        fun _ => .column hd⟩
    | true =>
      rw [WorkQueue.take_of_reply hd hr] at hnext
      cases hnext
  | row fields =>
    by_cases hnil : columns = []
    · -- no columns were announced
      obtain rfl : fixed = false := by
        cases fixed with
        | false => rfl
        | true => exact absurd hnil (hcolumns rfl)
      rw [WorkQueue.take_of_reply hd hr, hnil] at hnext
      cases hnext
    · cases hrow : Row.decode columns fields with
      | ok row =>
        rw [take_row hd hnil hrow] at hnext
        exact ⟨columns, true, _, (Option.some.inj hnext).symm, fun _ => hnil,
          fun _ => .row hd hnil hrow⟩
      | error e =>
        have hb := ResultSetBuilder.row_arriving hnil fixed fields
        rw [hrow] at hb
        rw [WorkQueue.take_of_reply hd hr] at hnext
        simp only [Operation.handle, Operation.handleStatement, hb, Except.map] at hnext
        cases hnext
  | fetchDone | fetchDoneMoreResultsets | fetchDoneMoreOutParams => exact absurd rfl hset
  | ok info | error e | executeOk => cases hgoes
  | capabilities values | authenticateContinue data | authenticateOk data | fetchSuspended =>
    rw [WorkQueue.take_of_reply hd hr] at hnext
    cases hnext

theorem StatementAnswer.of_through {columns : List Column} {fixed : Bool} {outcome : Outcome}
    {body : List Frame} {last : Frame} {reply : Reply} (hcolumns : fixed = true → columns ≠ [])
    (hbody : ∀ frame ∈ body, ∃ reply, Reply.decode frame = .ok reply ∧
      reply.endsStatement = false)
    (hthrough : (Operation.statement (.arriving columns fixed) outcome).through body ≠ none)
    (hd : Reply.decode last = .ok reply) (hend : reply.endsStatement = true)
    (hfatal : reply.isFatal = false) : StatementAnswer columns fixed (body ++ [last]) := by
  induction body generalizing columns fixed outcome with
  | nil => exact .last hd hend hfatal
  | cons frame rest ih =>
    obtain ⟨reply', hd', hgoes⟩ := hbody frame List.mem_cons_self
    rw [through_cons] at hthrough
    cases hnext : ((Operation.statement (.arriving columns fixed) outcome).take frame).next with
    | none =>
      rw [hnext] at hthrough
      exact absurd rfl hthrough
    | some next =>
      obtain ⟨columns', fixed', outcome', rfl, hcolumns', hcons⟩ :=
        StatementAnswer.of_take hcolumns hd' hgoes hnext
      rw [hnext] at hthrough
      exact hcons _ (ih hcolumns' (fun f hf => hbody f (List.mem_cons_of_mem _ hf)) hthrough)

theorem SingleAnswer.of_notices {body : List Frame} {last : Frame} {reply : Reply}
    (hbody : ∀ frame ∈ body, ∃ reply, Reply.decode frame = .ok reply ∧ reply.isAnswer = false)
    (hd : Reply.decode last = .ok reply) (hanswer : reply.isAnswer = true)
    (hfatal : reply.isFatal = false) : SingleAnswer (body ++ [last]) := by
  induction body with
  | nil => exact .last hd hanswer hfatal
  | cons frame rest ih =>
    obtain ⟨reply', hd', hno⟩ := hbody frame List.mem_cons_self
    cases reply' with
    | notice n => exact .notice hd' (ih fun f hf => hbody f (List.mem_cons_of_mem _ hf))
    | _ => cases hno

/-- a fatal error that ends an operation -/
theorem Operation.respond_of_fatal {o : Operation} {what : Ask} (h : o.IsOf what) {frame : Frame}
    {reply : Reply} (hd : Reply.decode frame = .ok reply) (hfatal : reply.isFatal = true) :
    ∃ e, o.respond frame = .error e := by
  unfold Operation.respond
  rw [hd]
  cases reply with
  | error e =>
    have hr : ∀ n, Reply.error e ≠ .notice n := fun n hn => by cases hn
    have he : (ConnectionError.server e).isFatal = true := hfatal
    refine ⟨.server e, ?_⟩
    show (o.take frame).result = _
    rw [WorkQueue.take_of_reply hd hr]
    cases o with
    | statement b outcome => exact if_pos he
    | single => exact if_pos he
    | authentication a => exact absurd h (by cases what <;> exact id)
  | _ => cases hfatal

/-- **A complete answer that the operation waits for to its end is well-formed**, unless the
connection is lost with it. -/
theorem Round.Complete.wellFormed {r : Round} (h : r.Complete) (hexact : r.Exact)
    (hlog : ∀ x ∈ (Course.alone r.request r.answer).log, ∀ e, x.result ≠ .error e) :
    r.WellFormed := by
  obtain ⟨body, last, reply, hanswer, hbody, hd, hend⟩ := h.split
  have hthrough : r.request.operation.through body ≠ none :=
    fun hnone => List.cons_ne_nil _ _ ((hexact body [last] hanswer).mp hnone)
  obtain ⟨o, ho⟩ := Option.ne_none_iff_exists'.mp hthrough
  have hentries := Course.entries_alone r.request body
  rw [ho] at hentries
  have hfatal : reply.isFatal = false := by
    cases hf : reply.isFatal with
    | false => rfl
    | true =>
      obtain ⟨e, he⟩ := Operation.respond_of_fatal
        (Operation.isOf_through (isOf_operation r.request) ho) hd hf
      rw [hanswer, Course.alone_concat] at hlog
      have hlast := hlog _ (List.mem_append_right _ (List.mem_singleton_self _)) e
      exact absurd ((WorkQueue.result_route hentries last).trans he) hlast
  obtain ⟨request, answer⟩ := r
  cases request with
  | statement =>
    show StatementAnswer [] false answer
    rw [show answer = body ++ [last] from hanswer]
    exact .of_through (fun h => absurd h Bool.false_ne_true) hbody hthrough hd hend hfatal
  | single =>
    show SingleAnswer answer
    rw [show answer = body ++ [last] from hanswer]
    exact .of_notices hbody hd hend hfatal

end DocWire
