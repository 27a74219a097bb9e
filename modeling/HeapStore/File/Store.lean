import HeapStore.File.Heap

/-!
# Open files

A file store is a disk and the heap files that are open on it, each named by a descriptor. Its operations
read and change both; one that fails gives its cause and keeps what was done before it failed.

Requests for pages can also be queued; the queue is served in order, each request with its own outcome.
-/

namespace HeapStore

/-- The name of an open file. -/
abbrev Descriptor := Nat

structure FileStore where
  disk : Disk
  /-- The open files; a descriptor is a place in this list. -/
  opened : List HeapFile

/-- An operation on a file store. -/
abbrev FileOp := ExceptT StorageError (StateM FileStore)

namespace FileStore

def ofDisk (d : Disk) : FileStore := ⟨d, []⟩

def file? (s : FileStore) (fd : Descriptor) : Option HeapFile := s.opened[fd]?

def setFile (s : FileStore) (fd : Descriptor) (f : HeapFile) : FileStore :=
  { s with opened := s.opened.set fd f }

/-- Opens a heap file under a new descriptor; a failing call changes nothing. -/
def openFile (s : FileStore) (path : String) (table : TableId) (schema : Schema) :
    Except StorageError (Descriptor × FileStore) := do
  let (f, disk) ← HeapFile.openAt s.disk path table schema
  .ok (s.opened.length, ⟨disk, s.opened ++ [f]⟩)

end FileStore

namespace FileOp

/-- The open file of a descriptor. -/
def file (fd : Descriptor) : FileOp HeapFile := do
  match (← get).file? fd with
  | some f => return f
  | none => throw (.io .notFound)

/-- Reads the bytes of a page. -/
def readBlock (fd : Descriptor) (p : PageId) : FileOp Block := do
  let f ← file fd
  let block ← liftExcept (f.readBlock (← get).disk p)
  modify (·.setFile fd f.countRead)
  return block

/-- Reads a page. Bytes that do not form a page have been read all the same. -/
def readPage (fd : Descriptor) (p : PageId) : FileOp HeapPage := do
  let block ← readBlock fd p
  liftExcept (HeapPage.decode p (← file fd).schema block.bytes)

/-- Overwrites the bytes of a page. -/
def writeBlock (fd : Descriptor) (p : PageId) (b : Block) : FileOp Unit := do
  let f ← file fd
  let disk ← liftExcept (f.writeBlock (← get).disk p b)
  modify fun s => { s.setFile fd f.countWrite with disk }

/-- Writes a page to its place. -/
def writePage (fd : Descriptor) (page : HeapPage) : FileOp Unit := writeBlock fd page.id page.block

/-- Appends a page without tuples. -/
def allocate (fd : Descriptor) : FileOp PageId := do
  let f ← file fd
  modify fun s =>
    let (f, disk) := f.append s.disk
    { s.setFile fd f with disk }
  return f.nextPage

/-! ### Queued requests -/

/-- What is asked of the disk for a page. -/
inductive Request where
  | read
  | write (block : Block)

/-- What a request came to. -/
inductive Outcome where
  | page (p : HeapPage)
  | written
  | failed (cause : StorageError)

def serve (fd : Descriptor) (p : PageId) : Request → FileOp Outcome
  | .read => return .page (← readPage fd p)
  | .write block => do
    writeBlock fd p block
    return .written

/-- Serves the requests in order; one that fails does not stop those behind it. -/
def serveAll (queue : List (Descriptor × PageId × Request)) : StateM FileStore (List Outcome) :=
  queue.mapM fun (fd, p, request) => do
    match ← (serve fd p request).run with
    | .ok outcome => return outcome
    | .error cause => return .failed cause

end FileOp

end HeapStore
