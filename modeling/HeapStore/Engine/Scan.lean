import HeapStore.Engine.Pages

/-!
# Scans

A scan walks through the stored tuples of a heap file in the order of pages and slots, for a transaction.
Between calls it keeps only its position, the next slot to look at, and no page object. Pages are read
under a shared lock; the lock on a page without tuples is given back unless the transaction held it
before.

A closed scan gives nothing. Closing keeps the position, rewinding goes back to the start.
-/

namespace HeapStore

/-- The next slot that a scan looks at. -/
structure Position where
  page : Nat
  slot : Nat
deriving DecidableEq

structure Scan where
  file : Descriptor
  txn : TxnId
  position : Position
  isOpen : Bool
deriving DecidableEq

namespace Scan

/-- A closed scan at the start of a file. -/
def ofFile (fd : Descriptor) (txn : TxnId) : Scan := ⟨fd, txn, ⟨0, 0⟩, false⟩

def opened (s : Scan) : Scan := { s with isOpen := true }

def closed (s : Scan) : Scan := { s with isOpen := false }

/-- Open at the start of the file. -/
def rewound (s : Scan) : Scan := { s with position := ⟨0, 0⟩, isOpen := true }

/-- Looks for the first tuple from a position on, among at most `pages` pages. The answer comes with the
position reached, which a failing search keeps as well. -/
def search (table : TableId) (txn : TxnId) :
    (pages : Nat) → Position → StateM Engine (Except StorageError (Option Tuple) × Position)
  | 0, pos => return (.ok none, pos)
  | pages + 1, pos => do
    let p : PageId := ⟨table, pos.page⟩
    let heldBefore := (← get).locks.holds p txn
    let fetched ← ExceptT.run do
      let h ← Op.getPage txn p .readOnly
      Op.page h
    match fetched with
    | .error cause => return (.error cause, pos)
    | .ok page =>
      let found := (page.nextUsed? pos.slot).bind fun slot => (page.tuple? slot).map (slot, ·)
      match found with
      | some (slot, tuple) => return (.ok (some tuple), { pos with slot })
      | none =>
        if page.isEmpty && !heldBefore then
          modify fun e => { e with locks := (e.locks.release p txn).2 }
        search table txn pages ⟨pos.page + 1, 0⟩

/-- Moves the scan onto the next stored tuple at or after its position. -/
def seek (s : Scan) : StateM Engine (Except StorageError (Option Tuple) × Scan) := do
  match (← get).store.file? s.file with
  | none => return (.error (.io .notFound), s)
  | some f =>
    let (result, position) ← search f.table s.txn (f.numPages - s.position.page) s.position
    return (result, { s with position })

/-- Is there another tuple? -/
def hasNext (s : Scan) : StateM Engine (Except StorageError Bool × Scan) := do
  if !s.isOpen then return (.ok false, s)
  else
    let (result, s) ← s.seek
    return (result.map Option.isSome, s)

/-- The next tuple; the scan moves past it. -/
def next (s : Scan) : StateM Engine (Except StorageError Tuple × Scan) := do
  if !s.isOpen then return (.error .scanNotOpen, s)
  else
    let (result, s) ← s.seek
    match result with
    | .error cause => return (.error cause, s)
    | .ok none => return (.error .scanAtEnd, s)
    | .ok (some tuple) =>
      return (.ok tuple, { s with position := ⟨s.position.page, s.position.slot + 1⟩ })

/-- The tuples that the scan still gives, at most `limit` of them, and why it stopped early. -/
def collect : (limit : Nat) → Scan → StateM Engine ((List Tuple × Option StorageError) × Scan)
  | 0, s => return (([], none), s)
  | limit + 1, s => do
    match ← s.hasNext with
    | (.error cause, s) => return (([], some cause), s)
    | (.ok false, s) => return (([], none), s)
    | (.ok true, s) =>
      match ← s.next with
      | (.error cause, s) => return (([], some cause), s)
      | (.ok tuple, s) =>
        let ((tuples, cause), s) ← collect limit s
        return ((tuple :: tuples, cause), s)

/-- All tuples that the scan still gives. No scan can give more than its file's pages have bits. -/
def collectAll (s : Scan) : StateM Engine ((List Tuple × Option StorageError) × Scan) := do
  let pages := ((← get).store.file? s.file).elim 0 (·.numPages)
  s.collect (pages * (pageSize * 8))

end Scan

end HeapStore
