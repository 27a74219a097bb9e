import HeapStore.Ids

/-!
# What can go wrong

`StorageError` has one constructor for each cause of a failing call; `StorageError.message` is the only
place where a cause becomes text.
-/

namespace HeapStore

/-- Why an operation on a file was refused. -/
inductive IoFailure where
  /-- A directory on the path, or the file itself, does not exist. -/
  | notFound
  /-- The path names a directory. -/
  | isDirectory
  /-- The path goes through a file as if it were a directory. -/
  | notADirectory
  /-- The path holds a null character. -/
  | nullInPath
  /-- The path, or a name in it, is longer than any file's. -/
  | nameTooLong
  /-- The file ends before the bytes that were asked for. -/
  | unexpectedEnd
  /-- The file's contents are not what they have to be. -/
  | invalidData (reason : String)
deriving DecidableEq

inductive StorageError where
  | io (failure : IoFailure)
  /-- The page is none of the table's file. -/
  | pageNotFound (page : PageId)
  /-- The tuple carries no record id. -/
  | tupleNotLocated
  /-- The page is not cached. -/
  | pageNotResident (page : PageId)
  /-- The lock was not granted in time. -/
  | transactionAborted (txn : TxnId) (page : PageId)
  /-- A page has to be loaded, and every cached page is held by a caller. -/
  | bufferPoolFull
  /-- The disk queue does not answer. -/
  | diskScheduler (reason : String)
  /-- Every slot of the page is in use. -/
  | pageFull (page : PageId)
  /-- The page has no such slot. -/
  | invalidSlot (slot : UInt16)
  /-- The slot holds no tuple. -/
  | slotEmpty (page : PageId) (slot : UInt16)
  /-- The tuple's column types are not the table's. -/
  | schemaMismatch (table : TableId)
  /-- Not one record of this width fits in a page. -/
  | recordTooLarge (width : Nat)
  | invalidSchema (reason : String)
  /-- The page's bytes are not those of a page of the table. -/
  | corruptPage (page : PageId)
  /-- The values do not fit the columns. -/
  | invalidValue (column reason : String)
  | tableAlreadyExists (name : String)
  | tableNotFound (table : TableId)
  /-- The scan has nothing to return. -/
  | noSuchElement (what : String)
deriving DecidableEq

def IoFailure.message : IoFailure → String
  | notFound => "No such file or directory (os error 2)"
  | isDirectory => "Is a directory (os error 21)"
  | notADirectory => "Not a directory (os error 20)"
  | nullInPath => "file name contained an unexpected NUL byte"
  | nameTooLong => "File name too long (os error 36)"
  | unexpectedEnd => "failed to fill whole buffer"
  | invalidData reason => reason

namespace StorageError

def message : StorageError → String
  | io failure => s!"I/O error: {failure.message}"
  | pageNotFound page => s!"Page {page.text} not found"
  | tupleNotLocated => "Tuple has no record location"
  | pageNotResident page => s!"Page {page.text} is not resident in the buffer pool"
  | transactionAborted txn page =>
    s!"Transaction {TxnId.text txn} aborted waiting for a lock on {page.text}"
  | bufferPoolFull => "Buffer pool is full, no evictable pages available"
  | diskScheduler reason => s!"Disk scheduler error: {reason}"
  | pageFull page => s!"Page {page.text} is full"
  | invalidSlot slot => s!"Invalid slot ID: {slot.toNat}"
  | slotEmpty page slot => s!"Slot {slotText slot} of {page.text} is empty"
  | schemaMismatch table => s!"Tuple schema does not match the schema of {TableId.text table}"
  | recordTooLarge width => s!"Record width {width} does not fit in a page"
  | invalidSchema reason => s!"Invalid schema: {reason}"
  | corruptPage page => s!"Page {page.text} holds a malformed record"
  | invalidValue column reason => s!"Invalid value for column {column}: {reason}"
  | tableAlreadyExists name => s!"Table {name} already exists"
  | tableNotFound table => s!"Table {TableId.text table} not found"
  | noSuchElement what => s!"No such element: {what}"

/-- A table without columns cannot be stored. -/
def noColumns : StorageError := invalidSchema "a table needs at least one column"

/-- A heap file is made of whole pages. -/
def partialPage (length : Nat) : StorageError :=
  io (.invalidData s!"heap file length {length} is not a multiple of the page size")

/-- A scan gives out tuples only while it is open. -/
def scanNotOpen : StorageError := noSuchElement "iterator is not open"

/-- The scan is past the last tuple. -/
def scanAtEnd : StorageError := noSuchElement "no more tuples in file"

end StorageError

end HeapStore
