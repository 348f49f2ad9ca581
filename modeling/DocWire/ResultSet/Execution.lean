import DocWire.ResultSet.Builder
import DocWire.ResultSet.Outcome

/-!
# Executions

The caller's side of a statement: the events that have come and not been read, and the result once
the statement has settled.

* `Execution.accept`, `Execution.settle`      what comes in;
* `Execution.nextEvent`, `Execution.nextRow`  what is read;
* `Execution.finish`, `Execution.collect`     the end of it.
-/

namespace DocWire

/-- What a caller has of a statement. -/
structure Execution where
  /-- the events that have not been read -/
  events : List ResultEvent := []
  /-- how the statement ended, if it has -/
  result : Option (Except ConnectionError Outcome) := none

/-- What a caller asks for is there, or will be there later. -/
inductive Awaited (α : Type)
  | ready (value : α)
  | pending

def Awaited.map {α β : Type} (f : α → β) : Awaited α → Awaited β
  | ready value => ready (f value)
  | pending => pending

/-- A result set that is complete. -/
structure ResultSet where
  columns : List Column := []
  rows : List Row := []
  warnings : List Warning := []
  /-- whether another result set of the statement follows -/
  hasMore : Bool := false

namespace ResultSet

/-- The result sets that are complete and the one that is not, after one more event. -/
def step : List ResultSet × Option ResultSet → ResultEvent → List ResultSet × Option ResultSet
  | (sets, _), .metadata columns => (sets, some { columns })
  | (sets, current), .row r =>
    let set := current.getD {}
    (sets, some { set with rows := set.rows ++ [r] })
  | (sets, current), .setEnd hasMore => (sets ++ [{ current.getD {} with hasMore }], none)

/-- The result sets of events, the last of them perhaps without its end. -/
def ofEvents (events : List ResultEvent) : List ResultSet :=
  let (sets, current) := events.foldl step ([], none)
  sets ++ current.toList

/-- Warnings come after the last row: they belong to the last result set. -/
def warnLast (warnings : List Warning) : List ResultSet → List ResultSet
  | [] => []
  | [set] => [{ set with warnings }]
  | set :: rest => set :: warnLast warnings rest

theorem ofEvents_nil : ofEvents [] = [] := rfl

theorem length_warnLast (warnings : List Warning) (sets : List ResultSet) :
    (warnLast warnings sets).length = sets.length := by
  fun_induction warnLast warnings sets with
  | case1 => rfl
  | case2 => rfl
  | case3 _ _ _ ih => simp [ih]

end ResultSet

namespace Execution

/-- A statement that was never sent. -/
def refused : Execution := { result := some (.error .closed) }

def accept (x : Execution) (event : ResultEvent) : Execution :=
  { x with events := x.events ++ [event] }

def settle (x : Execution) (result : Except ConnectionError Outcome) : Execution :=
  { x with result := some result }

def tryNext (x : Execution) : Option ResultEvent × Execution :=
  match x.events with
  | [] => (none, x)
  | event :: rest => (some event, { x with events := rest })

/-- The next event, or nothing once the statement has settled. -/
def nextEvent (x : Execution) : Awaited (Option ResultEvent) × Execution :=
  match x.events, x.result with
  | event :: rest, _ => (.ready (some event), { x with events := rest })
  | [], some _ => (.ready none, x)
  | [], none => (.pending, x)

/-- The first row among events, and the events behind it. -/
def firstRow : List ResultEvent → Option Row × List ResultEvent
  | [] => (none, [])
  | .row r :: rest => (some r, rest)
  | _ :: rest => firstRow rest

/-- The next row of any result set, or nothing once the statement has settled. The other events on
the way to it are passed over. -/
def nextRow (x : Execution) : Awaited (Option Row) × Execution :=
  match firstRow x.events, x.result with
  | (some r, rest), _ => (.ready (some r), { x with events := rest })
  | (none, rest), some _ => (.ready none, { x with events := rest })
  | (none, rest), none => (.pending, { x with events := rest })

def finish (x : Execution) : Awaited (Except ConnectionError Outcome) :=
  match x.result with
  | some result => .ready result
  | none => .pending

/-- Every result set and the outcome, once the statement has settled. -/
def collect (x : Execution) : Awaited (Except ConnectionError (List ResultSet × Outcome)) :=
  match x.result with
  | none => .pending
  | some result =>
    .ready (result.map fun outcome =>
      (ResultSet.warnLast outcome.warnings (ResultSet.ofEvents x.events), outcome))

theorem tryNext_accept (x : Execution) (event : ResultEvent) (h : x.events = []) :
    ((x.accept event).tryNext).1 = some event := by
  simp [accept, tryNext, h]

end Execution

end DocWire
