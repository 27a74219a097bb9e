import HeapStore.Error
import HeapStore.Lock.Table

/-!
# Waiting for locks

A `LockManager` is a lock table together with the acquires that are blocked on it. A blocked acquire
sleeps until it is woken; it then looks again whether its request can be granted, and if not, it goes
back to sleep. All are woken whenever a lock is released, and whenever another blocked acquire ends, with
the lock or without it.

Acquires are woken in the order in which they fell asleep, and look in the order in which they were
woken. So when one of them is granted, those that looked before it and were refused now look after all
the others.

Each operation is one step, so that any interleaving of callers is a sequence of these operations.
`settle` lets the woken acquires look, each in its turn, until all sleep: every look either ends an
acquire or puts one back to sleep.
-/

namespace HeapStore

/-- An acquire that waits. -/
structure Blocked where
  /-- Tells apart the acquires that wait. -/
  ticket : Nat
  page : PageId
  txn : TxnId
  mode : LockMode
deriving DecidableEq

structure LockManager where
  table : LockTable := {}
  /-- The blocked acquires that sleep, in the order in which they fell asleep. -/
  asleep : List Blocked := []
  /-- The blocked acquires that were woken and have not looked since, in the order in which they will. -/
  awake : List Blocked := []
  nextTicket : Nat := 0

/-- How an acquire stands after its first look at the lock. -/
inductive Progress where
  | granted
  | waits (ticket : Nat)
deriving DecidableEq

/-- A blocked acquire that ended, and whether it was granted. -/
structure Ended where
  request : Blocked
  granted : Bool
deriving DecidableEq

/-- What the caller of an ended acquire gets. -/
def Ended.result (e : Ended) : Except StorageError Unit :=
  if e.granted then .ok () else .error (.transactionAborted e.request.txn e.request.page)

namespace LockManager

/-- The acquires that wait, asleep or not. -/
def blocked (m : LockManager) : List Blocked := m.asleep ++ m.awake

/-- All blocked acquires are woken; those that were awake look first. -/
def wakeAll (m : LockManager) : LockManager := { m with asleep := [], awake := m.awake ++ m.asleep }

/-- A list of acquires without one of them. -/
def without (ticket : Nat) (acquires : List Blocked) : List Blocked :=
  acquires.filter (·.ticket ≠ ticket)

/-- The acquire no longer waits. -/
def unblock (m : LockManager) (ticket : Nat) : LockManager :=
  { m with asleep := without ticket m.asleep, awake := without ticket m.awake }

/-- The acquire falls asleep. -/
def sleep (m : LockManager) (b : Blocked) : LockManager := { m with asleep := m.asleep ++ [b] }

/-! ### Steps -/

/-- Takes a lock without waiting. -/
def tryAcquire (m : LockManager) (p : PageId) (txn : TxnId) (mode : LockMode) : Bool × LockManager :=
  let (granted, table) := m.table.tryAcquire p txn mode
  (granted, { m with table })

/-- Starts an acquire: it is granted at once or begins to wait. -/
def acquire (m : LockManager) (p : PageId) (txn : TxnId) (mode : LockMode) : Progress × LockManager :=
  if m.table.grantable p txn mode then (.granted, { m with table := m.table.grant p txn mode })
  else
    (.waits m.nextTicket,
      { m with
        table := m.table.enqueue p txn mode
        asleep := m.asleep ++ [⟨m.nextTicket, p, txn, mode⟩]
        nextTicket := m.nextTicket + 1 })

/-- A blocked acquire looks again, before its deadline. -/
def recheck (m : LockManager) (b : Blocked) : Option Ended × LockManager :=
  if m.table.grantable b.page b.txn b.mode then
    (some ⟨b, true⟩,
      { (m.unblock b.ticket).wakeAll with
        table := (m.table.withdraw b.page b.txn).grant b.page b.txn b.mode })
  else (none, (m.unblock b.ticket).sleep b)

/-- A blocked acquire looks a last time, at its deadline. -/
def expire (m : LockManager) (b : Blocked) : Ended × LockManager :=
  let (granted, table) := m.table.atDeadline b.page b.txn b.mode
  (⟨b, granted⟩, { (m.unblock b.ticket).wakeAll with table })

/-- An acquire before whose deadline nothing else happens. -/
def acquireUndisturbed (m : LockManager) (p : PageId) (txn : TxnId) (mode : LockMode) :
    Except StorageError Unit × LockManager :=
  match m.acquire p txn mode with
  | (.granted, m) => (.ok (), m)
  | (.waits ticket, m) =>
    let (ended, m) := m.expire ⟨ticket, p, txn, mode⟩
    (ended.result, m)

/-- Releases one lock; was it held? -/
def release (m : LockManager) (p : PageId) (txn : TxnId) : Bool × LockManager :=
  let (released, table) := m.table.release p txn
  (released, { (if released then m.wakeAll else m) with table })

/-- Releases all locks of a transaction. -/
def releaseAll (m : LockManager) (txn : TxnId) : LockManager :=
  { m.wakeAll with table := m.table.releaseAll txn }

/-- The transaction's acquire that waits for the page. -/
def blockedOn? (m : LockManager) (p : PageId) (txn : TxnId) : Option Blocked :=
  m.blocked.find? fun b => b.page = p && b.txn = txn

/-! ### Coming to rest -/

theorem length_without_lt {b : Blocked} {acquires : List Blocked} (h : b ∈ acquires) :
    (without b.ticket acquires).length < acquires.length := by
  refine Nat.lt_of_le_of_ne (List.length_filter_le ..) fun heq => ?_
  have := List.length_filter_eq_length_iff.1 heq b h
  simp at this

/-- Lets woken acquires look until all sleep; the acquires that ended on the way, in order. -/
def settle (m : LockManager) : List Ended × LockManager :=
  match _hb : m.awake.head? with
  | none => ([], m)
  | some b =>
    if m.table.grantable b.page b.txn b.mode then
      let (ended, m') := settle (m.recheck b).2
      ((m.recheck b).1.toList ++ ended, m')
    else settle (m.recheck b).2
termination_by (m.blocked.length, m.awake.length)
decreasing_by
  all_goals
    have hlt := length_without_lt (List.mem_of_head? _hb)
    have hle : (without b.ticket m.asleep).length ≤ m.asleep.length := List.length_filter_le ..
    simp only [recheck, *]
  · apply Prod.Lex.left
    simp only [blocked, unblock, wakeAll, if_true, List.length_append, List.length_nil]
    omega
  · refine Prod.Lex.right' _ ?_ ?_ <;>
      simp only [blocked, unblock, sleep, Bool.false_eq_true, if_false, List.length_append,
        List.length_singleton] <;>
      omega

end LockManager

end HeapStore
