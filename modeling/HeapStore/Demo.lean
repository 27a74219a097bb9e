import HeapStore.Engine.Rows
import HeapStore.Engine.Scan

/-!
# A demonstration

A session that shows the engine at work: rows are inserted and one of them deleted, a reader is turned
away by a writer, and the table is scanned. `Demo.run` gives the lines that the session prints and the
disk that it leaves behind, from which the table's file has been removed.
-/

namespace HeapStore.Demo

/-- A session: operations of the engine, with lines printed in between. -/
abbrev Session := StateT (List String) Op

def say (line : String) : Session Unit := modify (· ++ [line])

def fileName : String := "demo_people.dat"

def settings : Settings := (({} : Settings).withPoolPages 8).withLockTimeoutMs 200

def people : Schema :=
  (((⟨[]⟩ : Schema).add "id" .integer).add "name" (.char 24)).add "active" .boolean

/-- The rows: every other person is active, starting with the first. -/
def rows : List (List Value) :=
  ["Ada", "Grace", "Edsger", "Barbara", "Donald"].mapIdx fun i name =>
    [.integer (Int32.ofNat i), .string name, .boolean (i % 2 = 0)]

/-- Inserts a row and prints where it went. -/
def insertRow (txn : TxnId) (table : TableId) (values : List Value) : Session Tuple := do
  let row ← liftExcept (Tuple.ofValues people values)
  let insertion ← Op.insert txn table row
  let _ ← liftExcept insertion.outcome
  say s!"Inserted {insertion.tuple.text} at {RecordId.detail? insertion.tuple.recordId}"
  return insertion.tuple

/-- Deletes a stored row. -/
def deleteRow (txn : TxnId) (row : Tuple) : Session Unit := do
  let _ ← Op.delete txn row.recordId
  say s!"Deleted {row.text}"

/-- A reader asks for a page that a writer has. -/
def turnAway (reader : TxnId) (p : PageId) : Session Unit := do
  match ← (Op.getPage reader p .readOnly).run with
  | .error (.transactionAborted txn _) =>
    say s!"{TxnId.text txn} aborted waiting for {p.text}"
    Op.abort reader
  | .error cause => say s!"Unexpected result: Err({cause.message})"
  | .ok _ => say "Unexpected result: Ok(())"

/-- Prints every tuple of a table. -/
def list (txn : TxnId) (table : TableId) : Session Unit := do
  let fd ← Op.tableFile table
  let f ← Op.onFiles (FileOp.file fd)
  say s!"Scanning {TableId.text table} ({f.numPages} pages):"
  let ((tuples, cause), _) ← (Scan.ofFile fd txn).opened.collectAll
  for tuple in tuples do say s!"  - {tuple.text}"
  if let some cause := cause then throw cause

def session : Session Unit := do
  say "Strata - a page-oriented heap storage engine in Rust"
  say "===================================================="
  say ""
  say "Created database with an 8 page buffer pool"
  say ""
  let table ← Op.addTable "people" fileName people
  say s!"Registered table 'people' as {TableId.text table}: {people.text}"
  let txn ← Op.begin
  let stored ← rows.mapM (insertRow txn table)
  if let some row := stored[1]? then deleteRow txn row
  Op.commit txn
  say ""
  say s!"Committed {TxnId.text txn}"
  let writer ← Op.begin
  let reader ← Op.begin
  let p : PageId := ⟨table, 0⟩
  Op.hold (← Op.getPage writer p .readWrite)
  turnAway reader p
  Op.commit writer
  let txn ← Op.begin
  say ""
  list txn table
  Op.commit txn
  say ""
  say "Demo completed successfully!"

/-- The lines that the session prints, or why it failed, and the disk afterwards. -/
def run (disk : Disk) : Except StorageError (List String) × Disk :=
  let (result, e) := ((session.run []).run).run (Engine.start (disk.remove [fileName]) settings)
  (result.map (·.2), e.store.disk.remove [fileName])

end HeapStore.Demo
