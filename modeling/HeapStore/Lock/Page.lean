import HeapStore.Ids

/-!
# Locks of one page

A page is locked shared by any number of transactions or exclusively by one. Requests that cannot be
granted wait in a queue, oldest first. A transaction that does not hold the page passes the queue only if
nobody would be overtaken: an exclusive request has to be at the head, a shared one may have shared
requests before it. Two requests do not queue: one for a mode that is held already, and the exclusive
request of the page's only holder.

The queue is searched by transaction, not by request.
-/

namespace HeapStore

inductive LockMode where
  | shared
  | exclusive
deriving DecidableEq

/-- A transaction that waits for the page, and for which mode. -/
structure LockRequest where
  txn : TxnId
  mode : LockMode
deriving DecidableEq

structure PageLocks where
  holders : Std.ExtTreeMap TxnId LockMode := ∅
  /-- Oldest first. -/
  waiters : List LockRequest := []

/-- The mode of a holder who is granted one more mode: exclusive stays exclusive. -/
def LockMode.join : LockMode → LockMode → LockMode
  | shared, shared => shared
  | _, _ => exclusive

namespace PageLocks

variable (l : PageLocks) (txn : TxnId) (mode : LockMode)

def alreadyHolds : Bool :=
  match l.holders[txn]? with
  | some .exclusive => true
  | some .shared => mode = .shared
  | none => false

/-- Does the only holder ask for exclusive? -/
def isUpgrade : Bool := mode = .exclusive && l.holders.size == 1 && l.holders.contains txn

/-- Do the other holders' modes admit this one? -/
def compatible : Bool :=
  match mode with
  | .shared => l.holders.toList.all fun (holder, held) => holder == txn || held = .shared
  | .exclusive => l.holders.toList.all fun (holder, _) => holder == txn

/-- Would the request overtake nobody? -/
def queueAllows : Bool :=
  match l.waiters.findIdx? (·.txn = txn) with
  | none => l.waiters.isEmpty
  | some 0 => true
  | some place => mode = .shared && (l.waiters.take place).all (·.mode = .shared)

def grantable : Bool :=
  l.alreadyHolds txn mode || l.isUpgrade txn mode || (l.compatible txn mode && l.queueAllows txn mode)

/-- The transaction holds the page in this mode as well. -/
def grant : PageLocks :=
  { l with holders := l.holders.insert txn ((l.holders[txn]?.map (·.join mode)).getD mode) }

/-- The request goes to the end of the queue. -/
def enqueue : PageLocks := { l with waiters := l.waiters ++ [⟨txn, mode⟩] }

/-- The transaction's requests leave the queue. -/
def dequeue : PageLocks := { l with waiters := l.waiters.filter (·.txn ≠ txn) }

/-- The transaction no longer holds the page. -/
def release : PageLocks := { l with holders := l.holders.erase txn }

/-- Nobody holds the page and nobody waits for it. -/
def isIdle : Bool := l.holders.isEmpty && l.waiters.isEmpty

end PageLocks

end HeapStore
