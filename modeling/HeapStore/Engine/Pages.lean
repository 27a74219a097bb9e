import HeapStore.Engine.Basic

/-!
# Pages through the cache

`getPage` is how a transaction comes to a page: it takes the page's lock, then the cached copy, which it
loads if there is none. A full cache makes room first, by giving up the page that has not been accessed
for the longest time among those nobody holds; a changed page is written back before it is given up.

A `getPage` that fails after it took the lock gives the lock back, unless the transaction held one before.
-/

namespace HeapStore.Op

/-- Writes the page of an object to its file; from then on it counts as unchanged. -/
def writeBack (h : Handle) : Op Unit := do
  let page ← page h
  let fd ← tableFile page.id.table
  onFiles (FileOp.writeBlock fd page.id page.block)
  setPage h page.markClean

/-- Writes the page of an object to its file if it was changed. -/
def writeBackIfDirty (h : Handle) : Op Unit := do
  if (← page h).isDirty then writeBack h

/-- Makes room for one page. A victim that cannot be written back stays. -/
def evict : Op Unit := do
  match (← get).cache.victim? with
  | none => throw .bufferPoolFull
  | some p =>
    match (← get).cache.handle? p with
    | some h => writeBackIfDirty h
    | none => pure ()
    modifyCache (·.remove p)

/-- Makes room for one page if there is none. -/
def ensureRoom : Op Unit := do
  if (← get).cache.isFull then evict

/-- The cached copy of a page, loaded if need be. -/
def fetch (p : PageId) : Op Handle := do
  match (← get).cache.handle? p with
  | some h =>
    modifyCache (·.touch p)
    return h
  | none =>
    ensureRoom
    let fd ← tableFile p.table
    let page ← onFiles (FileOp.readPage fd p)
    let (h, cache) := (← get).cache.load page
    modify fun e => { e with cache }
    return h

/-- Locks a page for a transaction and gives its cached copy. -/
def getPage (txn : TxnId) (p : PageId) (access : Access) : Op Handle := do
  let heldBefore ← holdsLock txn p
  lock txn p access.lockMode
  try fetch p
  catch cause =>
    unless heldBefore do releasePage txn p
    throw cause

/-- Makes an object the cached copy of its page, if it is not that already. -/
def adopt (h : Handle) : Op Unit := do
  match (← get).cache.handle? h.page with
  | some cached => unless cached = h do modifyCache (·.place h)
  | none =>
    ensureRoom
    modifyCache (·.place h)
  modifyCache (·.touch h.page)

/-- Drops a page from the cache without writing it back; was it cached? -/
def discard (p : PageId) : Op Bool := do
  let cached := (← get).cache.isCached p
  modifyCache (·.remove p)
  return cached

/-! ### Writing to disk -/

/-- Writes a cached page to disk if it was changed; is it cached? -/
def flushPage (p : PageId) : Op Bool := do
  match (← get).cache.handle? p with
  | none => return false
  | some h =>
    writeBackIfDirty h
    return true

/-- Writes those cached pages to disk that are to be written. -/
def flushWhere (due : HeapPage → Bool) : Op Unit := do
  (← get).cache.handles.forM fun h => do
    if due (← page h) then writeBack h

/-- Writes every page to disk that the transaction was the last to change. -/
def flushTxn (txn : TxnId) : Op Unit := flushWhere (·.dirtiedBy = some txn)

/-- Writes every changed page to disk. -/
def flushAll : Op Unit := flushWhere (·.isDirty)

/-! ### Transactions -/

/-- A new transaction. -/
def begin : Op TxnId := do
  let txn := (← get).nextTxn
  modify fun e => { e with nextTxn := txn + 1 }
  return txn

/-- Ends a transaction: its pages are written to disk, and its locks are given up even if that fails. -/
def commit (txn : TxnId) : Op Unit := do
  try flushTxn txn
  catch cause =>
    releaseAll txn
    throw cause
  releaseAll txn

/-- Ends a transaction without writing anything; what it changed stays in the cache. -/
def abort (txn : TxnId) : Op Unit := releaseAll txn

/-! ### Holding page objects -/

def hold (h : Handle) : Op Unit := modifyCache (·.hold h)

def letGo (h : Handle) : Op Unit := modifyCache (·.letGo h)

end HeapStore.Op
