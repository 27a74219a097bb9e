import HeapStore.Record.Value

/-!
# Schemas

A schema is the list of a table's columns. Column names need not differ: a name stands for the last
column that bears it. Two schemas match if their types agree in order, whatever the names.
-/

namespace HeapStore

structure Column where
  name : String
  type : ColumnType
deriving DecidableEq

structure Schema where
  columns : List Column
deriving DecidableEq

/-- The place of the last column of that name. -/
def lastNamed? (name : String) : List Column → Option Nat
  | [] => none
  | c :: rest =>
    match lastNamed? name rest with
    | some i => some (i + 1)
    | none => if c.name = name then some 0 else none

/-- The bytes that one value of each column takes. -/
def widthOf : List Column → Nat
  | [] => 0
  | c :: columns => c.type.width + widthOf columns

/-- Does each value fit the column at its place, with as many values as columns? -/
def allFit : List Column → List Value → Bool
  | [], [] => true
  | c :: columns, v :: values => v.fits c.type && allFit columns values
  | _, _ => false

namespace Schema

/-- The schema with one more column at its end. -/
def add (s : Schema) (name : String) (type : ColumnType) : Schema := ⟨s.columns ++ [⟨name, type⟩]⟩

def index? (s : Schema) (name : String) : Option Nat := lastNamed? name s.columns

/-- The bytes of one record. -/
def width (s : Schema) : Nat := widthOf s.columns

/-- Do the column types agree in order? -/
def sameTypes (s t : Schema) : Bool := s.columns.map (·.type) == t.columns.map (·.type)

/-- Can these values be a row of the table? -/
def accepts (s : Schema) (values : List Value) : Bool := allFit s.columns values

def text (s : Schema) : String :=
  ", ".intercalate (s.columns.map fun c => s!"{c.name}({c.type.text})")

end Schema

end HeapStore
