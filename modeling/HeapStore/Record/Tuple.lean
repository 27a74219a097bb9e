import HeapStore.Error
import HeapStore.Record.Schema

/-!
# Tuples

A tuple is a row of a table: a schema, one value for each of its columns, and the place where the row is
stored, once it is. That the values fit is part of the type, so no operation on tuples has to check it
again.
-/

namespace HeapStore

structure Tuple where
  schema : Schema
  values : List Value
  recordId : Option RecordId
  accepted : schema.accepts values = true
deriving DecidableEq

/-- Why the schema does not accept the values: there are too many or too few of them, or else the first
one that does not fit its column. -/
def Schema.misfit (s : Schema) (values : List Value) : StorageError :=
  let misfitting :=
    if s.columns.length = values.length then
      (s.columns.zip values).find? fun (c, v) => !v.fits c.type
    else none
  match misfitting with
  | some (c, v) => .invalidValue c.name s!"{v.detail} does not fit {c.type.text}"
  | none => .invalidValue "*" s!"expected {s.columns.length} values, got {values.length}"

namespace Tuple

/-- The tuple of these values, stored nowhere yet. -/
def ofValues (s : Schema) (values : List Value) : Except StorageError Tuple :=
  if h : s.accepts values then .ok ⟨s, values, none, h⟩ else .error (s.misfit values)

/-- The tuple with another record id. -/
def withRecordId (t : Tuple) (r : Option RecordId) : Tuple := { t with recordId := r }

def value? (t : Tuple) (i : Nat) : Option Value := t.values[i]?

/-- The value in the column of that name, by the names of the tuple's own schema. -/
def valueNamed? (t : Tuple) (name : String) : Option Value :=
  (t.schema.index? name).bind t.value?

def text (t : Tuple) : String := "(" ++ ", ".intercalate (t.values.map Value.text) ++ ")"

end Tuple

end HeapStore
