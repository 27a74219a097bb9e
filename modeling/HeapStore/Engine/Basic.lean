import HeapStore.Cache.Basic
import HeapStore.Catalog
import HeapStore.Lock.Table
import HeapStore.Settings

/-!
# The engine

An engine is the files of its tables, their catalog, a cache of their pages and the locks of the
transactions at work. Its operations run one at a time, each to its end; one that fails gives its cause
and keeps what was done before it failed.

While a call waits for a lock no other call runs, so a lock that is not free ends in the abort of the
transaction that asked for it.
-/

namespace HeapStore

structure Engine where
  store : FileStore
  catalog : Catalog
  cache : Cache
  locks : LockTable
  nextTxn : TxnId

/-- An operation of the engine. -/
abbrev Op := ExceptT StorageError (StateM Engine)

/-- What a caller wants to do with a page. -/
inductive Access where
  | readOnly
  | readWrite
deriving DecidableEq

/-- Readers share a page, a writer has it alone. -/
def Access.lockMode : Access → LockMode
  | readOnly => .shared
  | readWrite => .exclusive

namespace Engine

/-- An engine without tables on a disk. How long a call waits for a lock makes no difference here, as
nothing can happen while it waits. -/
def start (disk : Disk) (settings : Settings) : Engine where
  store := .ofDisk disk
  catalog := {}
  cache := { capacity := settings.poolPages }
  locks := {}
  nextTxn := 1

end Engine

namespace Op

/-- Runs an operation on the files. -/
def onFiles {α : Type} (op : FileOp α) : Op α := do
  let (result, store) := op.run.run (← get).store
  modify fun e => { e with store }
  liftExcept result

def modifyCache (f : Cache → Cache) : Op Unit := modify fun e => { e with cache := f e.cache }

/-- The page that an object holds now. -/
def page (h : Handle) : Op HeapPage := do
  match (← get).cache.page? h with
  | some page => return page
  | none => throw (.pageNotResident h.page)

def setPage (h : Handle) (page : HeapPage) : Op Unit := modifyCache (·.setPage h page)

/-- The open file of a table. -/
def tableFile (table : TableId) : Op Descriptor := do liftExcept ((← get).catalog.file table)

/-- Registers a table. -/
def addTable (name path : String) (schema : Schema) : Op TableId := do
  let e ← get
  let (table, catalog, store) ← liftExcept (e.catalog.addTable e.store name path schema)
  set { e with catalog, store }
  return table

/-- Opens a heap file that is none of the catalog's. -/
def openFile (path : String) (table : TableId) (schema : Schema) : Op Descriptor := do
  let e ← get
  let (fd, store) ← liftExcept (e.store.openFile path table schema)
  set { e with store }
  return fd

/-! ### Locks -/

def holdsLock (txn : TxnId) (p : PageId) : Op Bool := do return (← get).locks.holds p txn

/-- Takes a lock or aborts the transaction. -/
def lock (txn : TxnId) (p : PageId) (mode : LockMode) : Op Unit := do
  let (granted, locks) := (← get).locks.acquireAlone p txn mode
  modify fun e => { e with locks }
  unless granted do throw (.transactionAborted txn p)

/-- Takes a lock if it can be had now. -/
def tryLock (txn : TxnId) (p : PageId) (mode : LockMode) : Op Bool := do
  let (granted, locks) := (← get).locks.tryAcquire p txn mode
  modify fun e => { e with locks }
  return granted

/-- Gives up the transaction's lock on a page. -/
def releasePage (txn : TxnId) (p : PageId) : Op Unit :=
  modify fun e => { e with locks := (e.locks.release p txn).2 }

/-- Gives up all locks of the transaction. -/
def releaseAll (txn : TxnId) : Op Unit := modify fun e => { e with locks := e.locks.releaseAll txn }

end Op

end HeapStore
