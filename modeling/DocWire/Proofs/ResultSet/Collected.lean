import DocWire.Proofs.Queue.Answers
import DocWire.Proofs.Queue.Holdings

/-!
# What an execution collects

The server answers a statement with result sets, each with its columns, its rows and a mark at the
end, and with one message that ends the statement; notices and messages of unknown types may stand
anywhere between.  The builder, the statement and its caller each see a part of it.  Together they
lose nothing: the caller collects the result sets that were sent.

* `SentSet`, `Response`       what the server sends;
* `Operation.telling`         what a caller is told of frames;
* `Arrives`                   messages that are still to come, and the events that they make;
* `Arrives.telling`           they make them, whatever stands between them;
* `ResultSet.ofEvents_events` the events of result sets give the result sets back;
* `Course.collects`           the whole of it, for any course of a desk.
-/

namespace DocWire

/-! ## What the server sends -/

namespace Reply

/-- a message that may stand anywhere in an answer and is no part of it -/
def isAside : Reply → Bool
  | notice _ | unknown _ => true
  | _ => false

/-- the notice for the operation at the head, if the message is one -/
def localNotice? : Reply → Option Notice
  | notice n => if n.isLocal then some n.notice else none
  | _ => none

end Reply

/-- The mark behind the rows of a result set. -/
inductive FetchMark
  | done
  | moreResultsets
  | moreOutParams
deriving DecidableEq

def FetchMark.reply : FetchMark → Reply
  | done => .fetchDone
  | moreResultsets => .fetchDoneMoreResultsets
  | moreOutParams => .fetchDoneMoreOutParams

/-- A result set as it is sent.  It has columns, and every row of fields is decoded by them. -/
structure SentSet where
  columns : List Column
  announced : columns ≠ []
  /-- the fields of each row -/
  fields : List (List (List UInt8))
  rows : List Row
  decodes : fields.map (Row.decode columns) = rows.map Except.ok
  mark : FetchMark

namespace SentSet

/-- the messages of a result set -/
def replies (s : SentSet) : List Reply :=
  s.columns.map .column ++ s.fields.map .row ++ [s.mark.reply]

/-- what the caller is told of a result set -/
def events (s : SentSet) : List ResultEvent :=
  .metadata s.columns :: (s.rows.map .row ++ [.setEnd s.mark.reply.hasMore])

/-- the result set that is collected -/
def collected (s : SentSet) : ResultSet :=
  { columns := s.columns, rows := s.rows, hasMore := s.mark.reply.hasMore }

end SentSet

/-- The message that ends a statement without an error. -/
inductive StatementEnd
  | executeOk
  | ok (info : Option String)
deriving DecidableEq

namespace StatementEnd

def reply : StatementEnd → Reply
  | executeOk => .executeOk
  | ok info => .ok info

/-- the words of the server, if it uses any -/
def info : StatementEnd → Option String
  | executeOk => none
  | ok info => info

end StatementEnd

/-- The answer to a statement, without what stands between its messages. -/
structure Response where
  sets : List SentSet
  ending : StatementEnd

namespace Response

def replies (r : Response) : List Reply := r.sets.flatMap SentSet.replies ++ [r.ending.reply]

/-- Messages are those of an answer, with notices and messages of unknown types anywhere before
its end. -/
structure SentAs (r : Response) (messages : List Reply) : Prop where
  parts : messages.filter (!·.isAside) = r.replies
  last : messages.getLast? = some r.ending.reply

def outcome (r : Response) (notices : List Notice) : Outcome :=
  { Outcome.ofNotices notices with info := r.ending.info }

/-- Result sets are those of an answer: in their order, with their columns and all their rows as
they decode, and each tells whether another one follows.  Warnings belong to the last one. -/
structure CollectedAs (r : Response) (warnings : List Warning) (sets : List ResultSet) : Prop where
  columns : sets.map ResultSet.columns = r.sets.map SentSet.columns
  rows : sets.map (fun set => set.rows.map Except.ok)
    = r.sets.map fun s => s.fields.map (Row.decode s.columns)
  hasMore : sets.map ResultSet.hasMore = r.sets.map fun s => decide (s.mark ≠ .done)
  warnings : ∀ i set, sets[i]? = some set →
    set.warnings = if i + 1 = sets.length then warnings else []

end Response

/-! ## What a caller is told -/

/-- What the caller of an operation is told when it is handed frames. -/
def Operation.telling : List Frame → Operation → List Told
  | [], _ => []
  | frame :: rest, o =>
    (o.take frame).tells o ++ ((o.take frame).next.map (telling rest)).getD []

theorem Operation.telling_nil (o : Operation) : telling [] o = [] := rfl

theorem Operation.telling_concat (frames : List Frame) (frame : Frame) (o : Operation) :
    telling (frames ++ [frame]) o
      = telling frames o ++ ((o.through frames).map fun o => (o.take frame).tells o).getD [] := by
  induction frames generalizing o with
  | nil =>
    rw [List.nil_append, through_nil, telling_nil, List.nil_append, telling]
    cases (o.take frame).next <;> exact List.append_nil _
  | cons first rest ih =>
    rw [List.cons_append, telling, telling, through_cons]
    cases (o.take first).next with
    | none =>
      simp only [Option.map_none, Option.getD_none, Option.bind_none, List.append_nil]
    | some next =>
      rw [Option.map_some, Option.getD_some, ih, Option.map_some, Option.getD_some,
        Option.bind_some, List.append_assoc]

/-- Alone, the caller of an operation is told of the frames that the operation is handed. -/
theorem Course.told_alone (what : Ask) (frames : List Frame) :
    told 0 (alone what frames).given = what.operation.telling frames := by
  induction frames using List.reverseRecOn with
  | nil => cases what <;> rfl
  | append_singleton frames frame ih =>
    have hentries := entries_alone what frames
    rw [alone_concat, Operation.telling_concat, ← ih]
    show told 0 ((alone what frames).given ++ _) = _
    rw [told_append]
    refine congrArg (told 0 (alone what frames).given ++ ·) ?_
    cases hthrough : what.operation.through frames with
    | none =>
      rw [hthrough] at hentries
      exact (WorkQueue.route_empty hentries frame).2 0
    | some o =>
      rw [hthrough] at hentries
      exact (WorkQueue.told_route hentries frame 0).trans (if_pos rfl)

/-! ## The messages of an answer, one by one -/

open ResultSetBuilder (arriving)
open ResultEvent (announce)

/-- The messages that are still to come of an answer, and the events that they make, where
`columns` are announced for the result set that is arriving and `fixed` tells whether a row of it
has come. -/
inductive Arrives (ending : StatementEnd) :
    List Column → Bool → List Reply → List ResultEvent → Prop
  | column {columns c parts events} (hrest : Arrives ending (columns ++ [c]) false parts events) :
      Arrives ending columns false (.column c :: parts) events
  | row {columns fixed fields r parts events} (hcolumns : columns ≠ [])
      (hrow : Row.decode columns fields = .ok r) (hrest : Arrives ending columns true parts events) :
      Arrives ending columns fixed (.row fields :: parts)
        (announce columns fixed ++ .row r :: events)
  | mark {columns fixed parts events} (mark : FetchMark)
      (hrest : Arrives ending [] false parts events) :
      Arrives ending columns fixed (mark.reply :: parts)
        (announce columns fixed ++ .setEnd mark.reply.hasMore :: events)
  | last {columns fixed} : Arrives ending columns fixed [ending.reply] []

namespace Arrives

variable {ending : StatementEnd} {columns : List Column} {parts : List Reply}
  {events : List ResultEvent}

/-- the rows of a result set and its mark -/
theorem rows (hcolumns : columns ≠ []) (mark : FetchMark) {fields : List (List (List UInt8))}
    {rows : List Row} (hrows : fields.map (Row.decode columns) = rows.map Except.ok)
    (hrest : Arrives ending [] false parts events) (fixed : Bool) :
    Arrives ending columns fixed (fields.map .row ++ mark.reply :: parts)
      (announce columns fixed ++ (rows.map .row ++ .setEnd mark.reply.hasMore :: events)) := by
  induction fields generalizing rows fixed with
  | nil =>
    obtain rfl : rows = [] := List.map_eq_nil_iff.mp hrows.symm
    exact .mark mark hrest
  | cons first more ih =>
    cases rows with
    | nil => cases hrows
    | cons r rows =>
      rw [List.map_cons, List.map_cons, List.cons.injEq] at hrows
      have hmore := ih hrows.2 true
      rw [show announce columns true = [] by cases columns <;> rfl, List.nil_append] at hmore
      exact .row hcolumns hrows.1 hmore

/-- the columns of a result set -/
theorem announcement (before : List Column) {more : List Column}
    (hrest : Arrives ending (before ++ more) false parts events) :
    Arrives ending before false (more.map .column ++ parts) events := by
  induction more generalizing before with
  | nil =>
    rw [List.append_nil] at hrest
    exact hrest
  | cons c more ih =>
    refine .column (ih (before ++ [c]) ?_)
    rw [List.append_assoc]
    exact hrest

end Arrives

/-- The messages of an answer make the events of its result sets. -/
theorem Response.arrives (r : Response) :
    Arrives r.ending [] false r.replies (r.sets.flatMap SentSet.events) := by
  obtain ⟨sets, ending⟩ := r
  unfold replies
  induction sets with
  | nil => exact .last
  | cons s rest ih =>
    have hannounce : announce s.columns false = [.metadata s.columns] := by
      cases hs : s.columns with
      | nil => exact absurd hs s.announced
      | cons c more => rfl
    have hset := Arrives.rows s.announced s.mark s.decodes ih false
    rw [hannounce] at hset
    simpa [SentSet.replies, SentSet.events] using Arrives.announcement [] hset

theorem StatementEnd.isAside_reply (ending : StatementEnd) : ending.reply.isAside = false := by
  cases ending <;> rfl

/-- Where the message that is next is not the last one, the last one is still to come. -/
theorem getLast?_of_ne {α : Type} {a e : α} {rest : List α} (h : (a :: rest).getLast? = some e)
    (hne : a ≠ e) : rest.getLast? = some e := by
  rw [List.getLast?_cons] at h
  cases hrest : rest.getLast? with
  | none =>
    rw [hrest] at h
    exact absurd (Option.some.inj h) hne
  | some b =>
    rw [hrest] at h
    exact h

/-- a statement that ended well with what it was told in notices -/
def Settlement.good (outcome : Outcome) (notices : List Notice) (ending : StatementEnd) :
    Settlement :=
  .outcome (.ok { notices.foldl Outcome.apply outcome with info := ending.info })

/-- **The messages that are to come make their events**, whatever stands between them, and the last
of them ends the statement. -/
theorem Arrives.telling {ending : StatementEnd} {columns : List Column} {fixed : Bool}
    {parts messages : List Reply} {events : List ResultEvent} {frames : List Frame}
    (h : Arrives ending columns fixed parts events)
    (hframes : frames.map Reply.decode = messages.map .ok)
    (hparts : messages.filter (!·.isAside) = parts)
    (hlast : messages.getLast? = some ending.reply) (outcome : Outcome) :
    (Operation.statement (arriving columns fixed) outcome).telling frames
      = events.map .event
          ++ [.settled (.good outcome (messages.filterMap Reply.localNotice?) ending)] := by
  induction messages generalizing columns fixed parts events frames outcome with
  | nil => cases hlast
  | cons m rest ih =>
    obtain ⟨frame, more, rfl, hd, hmore⟩ := List.map_eq_cons_iff.mp hframes
    -- the last message is still to come, unless this is the one
    have hnext : m ≠ ending.reply → rest.getLast? = some ending.reply := getLast?_of_ne hlast
    by_cases haside : m.isAside = true
    · have hrest : rest.filter (!·.isAside) = parts := by
        rw [← hparts, List.filter_cons_of_neg (by rw [haside]; decide)]
      have hend := hnext (by rintro rfl; rw [ending.isAside_reply] at haside; cases haside)
      cases m with
      | notice n =>
        rw [Operation.telling, take_notice hd]
        show [] ++ Operation.telling more _ = _
        rw [List.nil_append, ih h hmore hrest hend, List.filterMap_cons]
        cases hn : n.isLocal <;> simp [Reply.localNotice?, hn, Settlement.good]
      | unknown tag =>
        rw [Operation.telling, take_unknown hd]
        exact ih h hmore hrest hend outcome
      | _ => cases haside
    · rw [List.filter_cons_of_pos (by simpa using haside)] at hparts
      cases h with
      | column hcome =>
        obtain ⟨rfl, hrest⟩ := List.cons.inj hparts
        have hend := hnext (by cases ending <;> exact Reply.noConfusion)
        rw [Operation.telling, take_column hd]
        exact ih hcome hmore hrest hend outcome
      | row hcolumns hrow hcome =>
        obtain ⟨rfl, hrest⟩ := List.cons.inj hparts
        have hend := hnext (by cases ending <;> exact Reply.noConfusion)
        rw [Operation.telling, take_row hd hcolumns hrow]
        show _ ++ Operation.telling more _ = _
        rw [ih hcome hmore hrest hend outcome, List.filterMap_cons_none rfl]
        simp [Progress.tells]
      | mark mark hcome =>
        obtain ⟨rfl, hrest⟩ := List.cons.inj hparts
        have hend := hnext (by cases mark <;> cases ending <;> exact Reply.noConfusion)
        rw [Operation.telling, take_setEnd hd (by cases mark <;> rfl)]
        show _ ++ Operation.telling more _ = _
        rw [ih hcome hmore hrest hend outcome, List.filterMap_cons_none (by cases mark <;> rfl)]
        simp [Progress.tells]
      | last =>
        obtain ⟨rfl, hrest⟩ := List.cons.inj hparts
        have hnil : rest = [] := by
          cases hl : rest.getLast? with
          | none => exact List.getLast?_eq_none_iff.mp hl
          | some e =>
            rw [List.getLast?_cons, hl] at hlast
            obtain rfl : e = ending.reply := Option.some.inj hlast
            have hlater := List.filter_eq_nil_iff.mp hrest _ (List.mem_of_getLast? hl)
            rw [ending.isAside_reply] at hlater
            exact absurd rfl hlater
        subst hnil
        obtain rfl : more = [] := List.map_eq_nil_iff.mp hmore
        cases ending with
        | executeOk =>
          rw [Operation.telling, WorkQueue.take_of_reply hd (fun _ h => by cases h)]
          rfl
        | ok info =>
          rw [Operation.telling, WorkQueue.take_of_reply hd (fun _ h => by cases h)]
          rfl

/-! ## What is collected -/

namespace ResultSet

/-- The events of a result set make up the result set. -/
theorem foldl_events (sets : List ResultSet) (s : SentSet) :
    s.events.foldl step (sets, none) = (sets ++ [s.collected], none) := by
  have hrows (rows : List Row) (set : ResultSet) :
      (rows.map ResultEvent.row).foldl step (sets, some set)
        = (sets, some { set with rows := set.rows ++ rows }) := by
    induction rows generalizing set with
    | nil => simp
    | cons r rest ih =>
      rw [List.map_cons, List.foldl_cons]
      show List.foldl step (sets, some { set with rows := set.rows ++ [r] }) _ = _
      rw [ih]
      simp
  unfold SentSet.events
  rw [List.foldl_cons, List.foldl_append]
  show List.foldl step (List.foldl step (sets, some { columns := s.columns }) _) _ = _
  rw [hrows]
  simp [step, SentSet.collected]

/-- **The events of result sets give the result sets back.** -/
theorem ofEvents_events (sent : List SentSet) :
    ofEvents (sent.flatMap SentSet.events) = sent.map SentSet.collected := by
  have hfold (sets : List ResultSet) : (sent.flatMap SentSet.events).foldl step (sets, none)
      = (sets ++ sent.map SentSet.collected, none) := by
    induction sent generalizing sets with
    | nil => simp
    | cons s rest ih =>
      rw [List.flatMap_cons, List.foldl_append, foldl_events, ih]
      simp
  unfold ofEvents
  rw [hfold]
  simp

theorem getElem?_warnLast (warnings : List Warning) (sets : List ResultSet) (i : Nat) :
    (warnLast warnings sets)[i]?
      = sets[i]?.map fun set => if i + 1 = sets.length then { set with warnings } else set := by
  fun_induction warnLast warnings sets generalizing i with
  | case1 => rfl
  | case2 set => cases i <;> simp
  | case3 set rest hrest ih =>
    cases i with
    | zero =>
      have : rest ≠ [] := fun h => hrest h
      simp [this]
    | succ i => simp [ih]

theorem map_warnLast {α : Type} (f : ResultSet → α) (warnings : List Warning)
    (hf : ∀ set : ResultSet, f { set with warnings } = f set) (sets : List ResultSet) :
    (warnLast warnings sets).map f = sets.map f := by
  fun_induction warnLast warnings sets with
  | case1 => rfl
  | case2 set => exact congrArg (fun a => [a]) (hf set)
  | case3 set rest _ ih => rw [List.map_cons, List.map_cons, ih]

end ResultSet

/-- What is collected from the events of an answer. -/
theorem Response.collectedAs (r : Response) (warnings : List Warning) :
    r.CollectedAs warnings
      (ResultSet.warnLast warnings (ResultSet.ofEvents (r.sets.flatMap SentSet.events))) := by
  rw [ResultSet.ofEvents_events]
  refine ⟨?_, ?_, ?_, ?_⟩
  · rw [ResultSet.map_warnLast _ _ fun _ => rfl, List.map_map]
    rfl
  · rw [ResultSet.map_warnLast _ _ fun _ => rfl, List.map_map]
    exact List.map_congr_left fun s _ => s.decodes.symm
  · rw [ResultSet.map_warnLast _ _ fun _ => rfl, List.map_map]
    refine List.map_congr_left fun s _ => ?_
    show s.mark.reply.hasMore = _
    cases s.mark <;> rfl
  · intro i set hset
    rw [ResultSet.getElem?_warnLast] at hset
    obtain ⟨plain, hplain, rfl⟩ := Option.map_eq_some_iff.mp hset
    rw [ResultSet.length_warnLast]
    obtain ⟨s, _, rfl⟩ := List.mem_map.mp (List.mem_of_getElem? hplain)
    split <;> rfl

/-- What a caller holds that was told of events and of the end. -/
theorem Execution.hear_events (events : List ResultEvent) (result : Except ConnectionError Outcome) :
    (events.map Told.event ++ [Told.settled (.outcome result)]).foldl Execution.hear {}
      = { events, result := some result } := by
  have hfold (x : Execution) : (events.map Told.event).foldl Execution.hear x
      = { x with events := x.events ++ events } := by
    induction events generalizing x with
    | nil => simp
    | cons e rest ih =>
      rw [List.map_cons, List.foldl_cons, ih]
      simp [Execution.hear, Execution.accept]
  rw [List.foldl_append, hfold]
  rfl

/-- **An execution collects what the server sent.**  Whatever else is asked for and routed, if the
messages that came while a statement was at the head are those of an answer, with notices and
messages of unknown types anywhere between, then its caller, unless it gave the execution up,
collects the result sets of the answer and the outcome that the notices told. -/
theorem Course.collects (steps : List DeskStep) {id : Nat} {r : Response} {messages : List Reply}
    (hasked : (DeskStep.asked steps)[id]? = some .statement)
    (hcome : ((after steps).share id).map Reply.decode = messages.map .ok)
    (hsent : r.SentAs messages) :
    ∃ (n : Nat) (content : Option Execution),
      (after steps).desk.callers.executions[n]? = some ⟨some id, content⟩ ∧
      (n ∈ DeskStep.consumed steps ∨ ∃ (x : Execution) (sets : List ResultSet),
        content = some x ∧
        x.collect = .ready (.ok (sets, r.outcome (messages.filterMap Reply.localNotice?))) ∧
        r.CollectedAs (r.outcome (messages.filterMap Reply.localNotice?)).warnings sets) := by
  obtain ⟨n, content, hn, hcontent⟩ := holds_of_asked steps hasked
  refine ⟨n, content, hn, hcontent.imp_right fun hheld => ?_⟩
  have htold := (resembles_alone steps hasked).hears
  rw [told_alone] at htold
  have htelling := r.arrives.telling hcome hsent.parts hsent.last {}
  rw [htold, show Ask.statement.operation = .statement (arriving [] false) {} from rfl, htelling,
    Settlement.good, Execution.hear_events] at hheld
  exact ⟨_, _, hheld, rfl, r.collectedAs _⟩

/-- two result sets, the second one without rows, among two notices and a message of an unknown
type -/
def sampleMessages : List Reply :=
  [.column { type := .sint }, .row [[2]], .notice ⟨true, .warning ⟨.note, 5, "x"⟩⟩, .unknown 99,
    .fetchDoneMoreResultsets, .column { type := .uint }, .fetchDone,
    .notice ⟨true, .state .rowsAffected [.uint 5]⟩, .executeOk]

/-- the frames of these messages -/
def sampleAnswer : List Frame :=
  [⟨12, [8, 1]⟩, ⟨13, [10, 1, 2]⟩, ⟨11, [8, 1, 16, 2, 26, 7, 8, 1, 16, 5, 26, 1, 120]⟩, ⟨99, []⟩,
    ⟨16, []⟩, ⟨12, [8, 2]⟩, ⟨14, []⟩, ⟨11, [8, 3, 16, 2, 26, 8, 8, 4, 18, 4, 8, 2, 24, 5]⟩, ⟨17, []⟩]

/-- the answer without what stands between its messages -/
def sampleResponse : Response where
  sets :=
    [{ columns := [{ type := .sint }], announced := List.cons_ne_nil _ _, fields := [[[2]]],
       rows := [⟨[{ type := .sint }], [.int 1]⟩], decodes := rfl, mark := .moreResultsets },
     { columns := [{ type := .uint }], announced := List.cons_ne_nil _ _, fields := [], rows := [],
       decodes := rfl, mark := .done }]
  ending := .executeOk

theorem Course.collects_sample :
    let steps := .ask .statement :: .ask .single :: sampleAnswer.map DeskStep.route
    (DeskStep.asked steps)[0]? = some .statement ∧
    ((after steps).share 0).map Reply.decode = sampleMessages.map .ok ∧
    sampleResponse.SentAs sampleMessages ∧
    ∃ (n : Nat) (content : Option Execution),
      (after steps).desk.callers.executions[n]? = some ⟨some 0, content⟩ ∧
      (n ∈ DeskStep.consumed steps ∨ ∃ (x : Execution) (sets : List ResultSet),
        content = some x ∧
        x.collect = .ready (.ok (sets,
          sampleResponse.outcome (sampleMessages.filterMap Reply.localNotice?))) ∧
        sampleResponse.CollectedAs [⟨.note, 5, "x"⟩] sets) := by
  intro steps
  have hasked : (DeskStep.asked steps)[0]? = some .statement := rfl
  have hshare : (after steps).share 0 = sampleAnswer := by decide
  have hcome : ((after steps).share 0).map Reply.decode = sampleMessages.map .ok := by
    rw [hshare]
    rfl
  have hsent : sampleResponse.SentAs sampleMessages := ⟨rfl, rfl⟩
  exact ⟨hasked, hcome, hsent, Course.collects steps hasked hcome hsent⟩

end DocWire
