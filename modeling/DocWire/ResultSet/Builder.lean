import DocWire.ResultSet.Row

/-!
# Result sets as they arrive

The columns of a result set are announced one by one. The first row, or the end of the result set,
fixes them; every row is then decoded by them.

* `ResultEvent`             what a caller is told;
* `ResultSetBuilder.column`, `ResultSetBuilder.row`, `ResultSetBuilder.finish`   what arrives;
* `columns_fixColumns`            the columns that are fixed are the announced ones.
-/

namespace DocWire

/-- What a statement has returned, piece by piece. -/
inductive ResultEvent
  /-- the columns of the rows that follow -/
  | metadata (columns : List Column)
  | row (row : Row)
  /-- the result set is complete, and another one of the statement follows or not -/
  | setEnd (hasMore : Bool)

/-- The result set that is arriving. -/
structure ResultSetBuilder where
  /-- the columns announced since the last result set -/
  announced : List Column := []
  /-- the columns of the result set, once they are fixed -/
  columns : Option (List Column) := none
deriving DecidableEq

namespace ResultSetBuilder

/-- Takes in the announcement of a column. It comes too late once the columns are fixed. -/
def column (b : ResultSetBuilder) (c : Column) : Except ConnectionError ResultSetBuilder :=
  match b.columns with
  | some _ => .error (.violation .lateColumn)
  | none => .ok { b with announced := b.announced ++ [c] }

/-- Fixes the columns if there are any to fix, and tells them. -/
def fixColumns (b : ResultSetBuilder) : List ResultEvent × ResultSetBuilder :=
  match b.columns, b.announced with
  | none, _ :: _ => ([.metadata b.announced], ⟨[], some b.announced⟩)
  | _, _ => ([], b)

/-- Takes in a row. It fixes the columns even if it cannot be decoded by them. -/
def row (b : ResultSetBuilder) (fields : List (List UInt8)) :
    Except ConnectionError (List ResultEvent) × ResultSetBuilder :=
  let (events, b) := b.fixColumns
  match b.columns with
  | none => (.error (.violation .unannouncedRow), b)
  | some columns => ((Row.decode columns fields).map fun r => events ++ [.row r], b)

def finish (b : ResultSetBuilder) (hasMore : Bool) : List ResultEvent × ResultSetBuilder :=
  let (events, b) := b.fixColumns
  (events ++ [.setEnd hasMore], { b with columns := none })

theorem fixColumns_of_columns {b : ResultSetBuilder} {columns : List Column}
    (h : b.columns = some columns) : b.fixColumns = ([], b) := by
  simp [fixColumns, h]

theorem columns_fixColumns {b : ResultSetBuilder} (h : b.columns = none) (ha : b.announced ≠ []) :
    b.fixColumns.2.columns = some b.announced := by
  unfold fixColumns
  split
  · rfl
  · rename_i hne
    cases hb : b.announced with
    | nil => exact absurd hb ha
    | cons c cs => exact absurd hb (hne c cs h)

end ResultSetBuilder

end DocWire
