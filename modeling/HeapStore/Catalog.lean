import HeapStore.File.Store

/-!
# The catalog

The catalog numbers the tables from zero in the order of their registration and finds a table by number or
by name. A table is registered only when its file could be opened; a registration that fails leaves the
catalog and the files as they are.
-/

namespace HeapStore

structure TableEntry where
  name : String
  file : Descriptor
deriving DecidableEq

structure Catalog where
  byId : Std.ExtTreeMap TableId TableEntry := ∅
  byName : Std.ExtTreeMap String TableId := ∅
  nextId : TableId := 0

namespace Catalog

/-- The number of a table. -/
def tableId? (c : Catalog) (name : String) : Option TableId := c.byName[name]?

def entry (c : Catalog) (table : TableId) : Except StorageError TableEntry :=
  match c.byId[table]? with
  | some entry => .ok entry
  | none => .error (.tableNotFound table)

/-- The open file of a table. -/
def file (c : Catalog) (table : TableId) : Except StorageError Descriptor := do
  .ok (← c.entry table).file

def tableName (c : Catalog) (table : TableId) : Except StorageError String := do
  .ok (← c.entry table).name

/-- The registered tables in ascending order. -/
def tableIds (c : Catalog) : List TableId := c.byId.keys

/-- Registers a table whose rows are in the file at a path. -/
def addTable (c : Catalog) (s : FileStore) (name path : String) (schema : Schema) :
    Except StorageError (TableId × Catalog × FileStore) := do
  if c.byName.contains name then throw (.tableAlreadyExists name)
  let (fd, s) ← s.openFile path c.nextId schema
  return (c.nextId,
    { byId := c.byId.insert c.nextId ⟨name, fd⟩
      byName := c.byName.insert name c.nextId
      nextId := c.nextId + 1 }, s)

end Catalog

end HeapStore
