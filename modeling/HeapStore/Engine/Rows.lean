import HeapStore.Engine.Pages

/-!
# Inserting and deleting

A tuple goes to the first page with a free slot. Pages are looked at under a shared lock, which is given
back if the page turns out full and the transaction did not hold it before; the page that takes the tuple
is locked exclusively. If every page is full, one is appended.

The operations on a heap file leave the changed page unmarked. Those on a table find its file in the
catalog and mark the page as changed by the transaction.
-/

namespace HeapStore.Op

/-- Puts a tuple on a page object and answers with the tuple as it is stored. -/
def insertOn (h : Handle) (t : Tuple) : Op Tuple := do
  let (stored, page) ← liftExcept ((← page h).insert t)
  setPage h page
  return stored

/-- Puts a tuple on a page, locked exclusively. -/
def insertInto (txn : TxnId) (p : PageId) (t : Tuple) : Op (Tuple × Handle) := do
  let h ← getPage txn p .readWrite
  return (← insertOn h t, h)

/-- Is there room on the page? It is looked at under a shared lock. -/
def probe (txn : TxnId) (p : PageId) : Op Bool := do
  let h ← getPage txn p .readOnly
  return 0 < (← page h).numFree

/-- Puts a tuple on the first of the table's pages in the list that has room, or else on a new one. -/
def insertFirstFit (fd : Descriptor) (txn : TxnId) (t : Tuple) (table : TableId) :
    List Nat → Op (Tuple × Handle)
  | [] => do
    let p ← onFiles (FileOp.allocate fd)
    insertInto txn p t
  | n :: rest => do
    let p : PageId := ⟨table, n⟩
    let heldBefore ← holdsLock txn p
    if ← probe txn p then
      let h ← getPage txn p .readWrite
      match (← page h).insert t with
      | .ok (stored, page) =>
        setPage h page
        return (stored, h)
      | .error (.pageFull _) => insertFirstFit fd txn t table rest
      | .error cause => throw cause
    else
      unless heldBefore do releasePage txn p
      insertFirstFit fd txn t table rest

/-- Inserts a tuple into a heap file; the answer is the tuple as it is stored, and its page. -/
def insertIntoFile (fd : Descriptor) (txn : TxnId) (t : Tuple) : Op (Tuple × Handle) := do
  let f ← onFiles (FileOp.file fd)
  unless t.schema.sameTypes f.schema do throw (.schemaMismatch f.table)
  insertFirstFit fd txn t f.table (List.range f.numPages)

/-- Deletes the tuple at a record id from a heap file; the answer is its page. -/
def deleteFromFile (fd : Descriptor) (txn : TxnId) (r : Option RecordId) : Op Handle := do
  let f ← onFiles (FileOp.file fd)
  match r with
  | none => throw .tupleNotLocated
  | some r =>
    unless r.page.table = f.table do throw (.pageNotFound r.page)
    let h ← getPage txn r.page .readWrite
    setPage h (← liftExcept ((← page h).delete (some r)))
    return h

/-- Marks the page of an object as changed by the transaction. -/
def markDirty (h : Handle) (txn : TxnId) : Op Unit := do setPage h ((← page h).markDirty txn)

/-- What an insert comes to: the caller's tuple, which carries its record id from the moment it is stored,
and the changed page or the cause of failure. -/
structure Insertion where
  tuple : Tuple
  outcome : Except StorageError Handle

/-- Inserts a tuple into a table. -/
def insert (txn : TxnId) (table : TableId) (t : Tuple) : StateM Engine Insertion := do
  let stored ← ExceptT.run do
    let fd ← tableFile table
    insertIntoFile fd txn t
  match stored with
  | .error cause => return ⟨t, .error cause⟩
  | .ok (stored, h) =>
    let outcome ← ExceptT.run do
      markDirty h txn
      adopt h
      return h
    return ⟨stored, outcome⟩

/-- Deletes the tuple at a record id; its page has to be cached, as whoever knows the record id has
read the page. -/
def delete (txn : TxnId) (r : Option RecordId) : Op Handle := do
  match r with
  | none => throw .tupleNotLocated
  | some r =>
    unless (← get).cache.isCached r.page do throw (.pageNotResident r.page)
    let fd ← tableFile r.page.table
    let h ← deleteFromFile fd txn (some r)
    markDirty h txn
    return h

end HeapStore.Op
