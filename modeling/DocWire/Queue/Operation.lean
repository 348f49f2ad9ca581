import DocWire.Auth.Exchange
import DocWire.ResultSet.Builder
import DocWire.ResultSet.Outcome

/-!
# Operations

What the server owes an answer to: a statement, a request that a single message answers, or an
authentication. An operation takes in the messages of its answer until one of them ends it.

* `Operation`          the operations, each with what it has taken in so far;
* `Operation.handle`   takes in a message, `Operation.notice` a notice;
* `Settlement`         how an operation ends;
* `Operation.fail`     the ending by an error.
-/

namespace DocWire

/-- How an operation ends. -/
inductive Settlement
  | outcome (result : Except ConnectionError Outcome)
  | reply (result : Except ConnectionError Reply)
  | mechanism (result : Except ConnectionError Mechanism)

def Settlement.error? : Settlement → Option ConnectionError
  | outcome (.error e) | reply (.error e) | mechanism (.error e) => some e
  | outcome (.ok _) | reply (.ok _) | mechanism (.ok _) => none

/-- An operation that the server owes an answer to. -/
inductive Operation
  | statement (builder : ResultSetBuilder) (outcome : Outcome)
  /-- a request that is answered by one message -/
  | single
  | authentication (exchange : Authentication)
deriving DecidableEq

/-- What has become of an operation with a message. -/
inductive Progress
  /-- more messages belong to the operation -/
  | pending (next : Operation) (events : List ResultEvent)
  /-- the server is to be answered, and more messages belong to the operation -/
  | reply (next : Operation) (request : Request)
  /-- the operation is over -/
  | settled (settlement : Settlement)
  /-- the message is an error, or makes no sense here -/
  | failed (error : ConnectionError)

namespace Operation

/-- A statement of which nothing has come yet. -/
def newStatement : Operation := statement {} {}

/-- A statement takes in a message. What is not known is passed over. -/
def handleStatement (b : ResultSetBuilder) (o : Outcome) : Reply → Progress
  | .column c =>
    match b.column c with
    | .ok b => .pending (statement b o) []
    | .error e => .failed e
  | .row fields =>
    match b.row fields with
    | (.ok events, b) => .pending (statement b o) events
    | (.error e, _) => .failed e
  | .fetchDone =>
    let (events, b) := b.finish false
    .pending (statement b o) events
  | .fetchDoneMoreResultsets | .fetchDoneMoreOutParams =>
    let (events, b) := b.finish true
    .pending (statement b o) events
  | .executeOk => .settled (.outcome (.ok { o with info := none }))
  | .ok info => .settled (.outcome (.ok { o with info }))
  | .error e => .failed (.server e)
  | .unknown _ => .pending (statement b o) []
  | other => .failed (.violation (.inStatement other.name))

def handle (operation : Operation) (reply : Reply) : Progress :=
  match operation with
  | statement b o => handleStatement b o reply
  | single =>
    match reply with
    | .error e => .failed (.server e)
    | other => .settled (.reply (.ok other))
  | authentication a =>
    match a.handle reply with
    | (.ok (.send request), a) => .reply (authentication a) request
    | (.ok .done, a) => .settled (.mechanism (.ok a.mechanism))
    | (.error e, _) => .failed e

/-- Takes in a notice, which matters to statements only. -/
def notice (operation : Operation) (n : Notice) : Operation :=
  match operation with
  | statement b o => statement b (o.apply n)
  | other => other

def fail (operation : Operation) (e : ConnectionError) : Settlement :=
  match operation with
  | statement _ _ => .outcome (.error e)
  | single => .reply (.error e)
  | authentication _ => .mechanism (.error e)

theorem handleStatement_unknown (b : ResultSetBuilder) (o : Outcome) (tag : UInt8) :
    handleStatement b o (.unknown tag) = .pending (statement b o) [] := rfl

theorem error?_fail (operation : Operation) (e : ConnectionError) :
    (operation.fail e).error? = some e := by
  cases operation <;> rfl

/-- A notice does not change how an operation fails. -/
theorem fail_notice (operation : Operation) (n : Notice) (e : ConnectionError) :
    (operation.notice n).fail e = operation.fail e := by
  cases operation <;> rfl

end Operation

end DocWire
