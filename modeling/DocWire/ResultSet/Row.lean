import DocWire.ResultSet.Value

/-!
# Rows

* `Row`          values and the columns they belong to;
* `Row.decode`   the row of as many fields as there are columns;
* `Row.line`     the values with tabs between them.
-/

namespace DocWire

structure Row where
  columns : List Column
  values : List Value

namespace Row

/-- The row of fields: one for each column, each decoded by its column. -/
def decode (columns : List Column) (fields : List (List UInt8)) : Except ConnectionError Row :=
  if fields.length = columns.length then
    ((columns.zip fields).mapM fun (column, field) => Value.decode column field).map
      fun values => ⟨columns, values⟩
  else .error (.violation (.rowWidth fields.length columns.length))

def get? (r : Row) (index : Nat) : Option Value := r.values[index]?

def byName? (r : Row) (name : String) : Option Value :=
  (r.columns.findIdx? fun c => c.name == name).bind r.get?

def line (r : Row) : String := String.intercalate "\t" (r.values.map Value.toText)

theorem decode_of_length_ne {columns : List Column} {fields : List (List UInt8)}
    (h : fields.length ≠ columns.length) :
    decode columns fields = .error (.violation (.rowWidth fields.length columns.length)) :=
  if_neg h

end Row

def headerLine (columns : List Column) : String :=
  String.intercalate "\t" (columns.map Column.name)

end DocWire
