import HeapStore.Lock.Page
import Std.Data.ExtTreeSet

/-!
# The lock table

The locks of all pages, and for each transaction the pages it holds. Pages that nobody holds or waits for
and transactions that hold nothing have no entry.

The operations are the steps of which locking is made: a grant, a request that starts to wait, a request
that is withdrawn, a release. `acquireAlone` puts them together for a caller next to whom nobody runs.
-/

namespace HeapStore

structure LockTable where
  pages : Std.ExtTreeMap PageId PageLocks := ∅
  /-- The pages each transaction holds. -/
  held : Std.ExtTreeMap TxnId (Std.ExtTreeSet PageId) := ∅

namespace LockTable

/-- The locks of a page, none if it has no entry. -/
def locks (t : LockTable) (p : PageId) : PageLocks := t.pages.getD p {}

def mode? (t : LockTable) (p : PageId) (txn : TxnId) : Option LockMode := (t.locks p).holders[txn]?

def holds (t : LockTable) (p : PageId) (txn : TxnId) : Bool := (t.mode? p txn).isSome

def grantable (t : LockTable) (p : PageId) (txn : TxnId) (mode : LockMode) : Bool :=
  (t.locks p).grantable txn mode

/-- The requests that wait for a page. -/
def waitingCount (t : LockTable) (p : PageId) : Nat := (t.locks p).waiters.length

/-- The pages a transaction holds, in ascending order. -/
def lockedPages (t : LockTable) (txn : TxnId) : List PageId := (t.held.getD txn ∅).toList

/-- Replaces the locks of a page; an idle page has no entry. -/
def setLocks (t : LockTable) (p : PageId) (l : PageLocks) : LockTable :=
  { t with pages := if l.isIdle then t.pages.erase p else t.pages.insert p l }

def grant (t : LockTable) (p : PageId) (txn : TxnId) (mode : LockMode) : LockTable where
  pages := t.pages.insert p ((t.locks p).grant txn mode)
  held := t.held.insert txn ((t.held.getD txn ∅).insert p)

/-- A request starts to wait. -/
def enqueue (t : LockTable) (p : PageId) (txn : TxnId) (mode : LockMode) : LockTable :=
  t.setLocks p ((t.locks p).enqueue txn mode)

/-- The transaction's requests for the page are withdrawn. -/
def withdraw (t : LockTable) (p : PageId) (txn : TxnId) : LockTable :=
  t.setLocks p ((t.locks p).dequeue txn)

/-- The transaction holds one page less. -/
def forget (t : LockTable) (p : PageId) (txn : TxnId) : LockTable :=
  match t.held[txn]? with
  | none => t
  | some pages =>
    let left := pages.erase p
    { t with held := if left.isEmpty then t.held.erase txn else t.held.insert txn left }

/-- Releases one page; was it held? -/
def release (t : LockTable) (p : PageId) (txn : TxnId) : Bool × LockTable :=
  match t.pages[p]? with
  | none => (false, t)
  | some l => (l.holders.contains txn, (t.setLocks p (l.release txn)).forget p txn)

/-- Releases every page that the transaction holds. -/
def releaseAll (t : LockTable) (txn : TxnId) : LockTable :=
  (t.lockedPages txn).foldl (fun t p => (t.release p txn).2) { t with held := t.held.erase txn }

/-- Takes the lock if it can be had now; otherwise nothing changes. -/
def tryAcquire (t : LockTable) (p : PageId) (txn : TxnId) (mode : LockMode) : Bool × LockTable :=
  if t.grantable p txn mode then (true, t.grant p txn mode) else (false, t)

/-- Ends the wait of a queued request at its deadline: it is granted if it can be, and withdrawn
otherwise. -/
def atDeadline (t : LockTable) (p : PageId) (txn : TxnId) (mode : LockMode) : Bool × LockTable :=
  if t.grantable p txn mode then (true, (t.withdraw p txn).grant p txn mode)
  else (false, t.withdraw p txn)

/-- Takes the lock, waiting for it if need be, while nobody else runs: the wait ends at the deadline. -/
def acquireAlone (t : LockTable) (p : PageId) (txn : TxnId) (mode : LockMode) : Bool × LockTable :=
  if t.grantable p txn mode then (true, t.grant p txn mode)
  else (t.enqueue p txn mode).atDeadline p txn mode

end LockTable

end HeapStore
