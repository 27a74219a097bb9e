import HeapStore.File.Disk
import HeapStore.Page.Codec

/-!
# Heap files

The pages of a table stand in one file, page `n` at offset `n * pageSize`. The number of pages is read when
the file is opened and kept from then on; only appending a page changes it. Pages that are read and
pages that are written are counted.

Two things are assumed. A write never fails, as on every `Disk`. And an append does not overflow the 32 bits that pages
are numbered with: `append` counts on, whatever the number. Opening a file that has more pages than this does reduce
their number (`openAt`).
-/

namespace HeapStore

structure HeapFile where
  table : TableId
  schema : Schema
  path : List String
  numPages : Nat
  numReads : Nat
  numWrites : Nat
deriving DecidableEq

namespace HeapFile

/-- Pages are numbered with 32 bits. -/
def pageNumbers : Nat := 1 <<< 32

/-- Opens the file at a path, creating it if there is none. The schema is checked before the path. -/
def openAt (d : Disk) (path : String) (table : TableId) (s : Schema) :
    Except StorageError (HeapFile × Disk) := do
  s.checkStorable
  match d.target path with
  | .error failure => .error (.io failure)
  | .ok file =>
    let length := (d.contents file).length
    if length % pageSize ≠ 0 then .error (.partialPage length)
    else .ok (⟨table, s, file, length / pageSize % pageNumbers, 0, 0⟩, d.create file)

/-- Where a page of the file starts. -/
def offset? (f : HeapFile) (p : PageId) : Except StorageError Nat :=
  if p.table ≠ f.table || f.numPages ≤ p.number then .error (.pageNotFound p)
  else .ok (p.number * pageSize)

/-- The bytes of a page. The file may have been cut short since it was opened. -/
def readBlock (f : HeapFile) (d : Disk) (p : PageId) : Except StorageError Block := do
  let offset ← f.offset? p
  match Block.ofBytes? (d.read f.path offset pageSize) with
  | some block => .ok block
  | none => .error (.io .unexpectedEnd)

/-- Replaces the bytes of a page. -/
def writeBlock (f : HeapFile) (d : Disk) (p : PageId) (b : Block) : Except StorageError Disk := do
  let offset ← f.offset? p
  .ok (d.write f.path offset b.bytes)

/-- The page that an append adds. -/
def nextPage (f : HeapFile) : PageId := ⟨f.table, f.numPages⟩

/-- Appends a page of zeros. -/
def append (f : HeapFile) (d : Disk) : HeapFile × Disk :=
  ({ f with numPages := f.numPages + 1, numWrites := f.numWrites + 1 },
    d.write f.path (f.numPages * pageSize) Block.zero.bytes)

def countRead (f : HeapFile) : HeapFile := { f with numReads := f.numReads + 1 }

def countWrite (f : HeapFile) : HeapFile := { f with numWrites := f.numWrites + 1 }

end HeapFile

end HeapStore
