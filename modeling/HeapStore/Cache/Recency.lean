import HeapStore.Ids

/-!
# Order of last access

A `Recency` stamps each access of a page with the next tick of a clock and keeps the stamps both ways,
from a page to its last stamp and from a stamp to the page. A page to evict is looked for from the oldest
stamp on; `consult` also tells which pages were considered before one was found.
-/

namespace HeapStore

structure Recency where
  /-- The next stamp. -/
  clock : Nat := 0
  /-- The stamp of each page's last access. -/
  lastAccess : Std.ExtTreeMap PageId Nat := ∅
  /-- The page of each of these stamps. -/
  byAge : Std.ExtTreeMap Nat PageId := ∅

/-- What a search for a page to evict found, and whom it asked on the way. -/
structure Consultation where
  victim : Option PageId
  asked : List PageId
deriving DecidableEq

/-- Asks the pages in turn and stops at the first that may be evicted. -/
def Consultation.run (evictable : PageId → Bool) : List PageId → Consultation
  | [] => ⟨none, []⟩
  | p :: rest =>
    if evictable p then ⟨some p, [p]⟩
    else
      let later := run evictable rest
      ⟨later.victim, p :: later.asked⟩

namespace Recency

/-- The page is accessed now. -/
def access (r : Recency) (p : PageId) : Recency where
  clock := r.clock + 1
  lastAccess := r.lastAccess.insert p r.clock
  byAge :=
    match r.lastAccess[p]? with
    | some stamp => (r.byAge.erase stamp).insert r.clock p
    | none => r.byAge.insert r.clock p

/-- The page is no longer tracked. -/
def remove (r : Recency) (p : PageId) : Recency :=
  match r.lastAccess[p]? with
  | some stamp => { r with lastAccess := r.lastAccess.erase p, byAge := r.byAge.erase stamp }
  | none => r

/-- The tracked pages, the longest not accessed first. -/
def oldestFirst (r : Recency) : List PageId := r.byAge.values

def consult (r : Recency) (evictable : PageId → Bool) : Consultation :=
  Consultation.run evictable r.oldestFirst

/-- The evictable page that has not been accessed for the longest time. -/
def victim? (r : Recency) (evictable : PageId → Bool) : Option PageId := (r.consult evictable).victim

def size (r : Recency) : Nat := r.lastAccess.size

def isEmpty (r : Recency) : Bool := r.lastAccess.isEmpty

end Recency

end HeapStore
