import HeapStore.Cache.Recency
import HeapStore.Page.Basic

/-!
# Cached pages

A cache keeps page objects. The page table says which object is the cached copy of a page; callers name
an object by a handle and can hold it, several times over. An object lives on as long as it is the cached
copy of its page or somebody holds it. A cached page that nobody holds may be evicted.

The cache itself knows nothing of disks: who evicts a page has to write it back first.
-/

namespace HeapStore

/-- The name of a page object; a page may have several in the course of time. -/
structure Handle where
  page : PageId
  object : Nat
deriving DecidableEq

/-- A page object. -/
structure Frame where
  page : HeapPage
  /-- How often callers hold the object. -/
  holders : Nat
deriving DecidableEq

structure Cache where
  capacity : Nat
  /-- The page objects. -/
  frames : Std.ExtTreeMap Nat Frame := ∅
  /-- The cached copy of each cached page. -/
  resident : Std.ExtTreeMap PageId Nat := ∅
  /-- The cached pages by last access. -/
  recency : Recency := {}
  nextObject : Nat := 0

namespace Cache

/-! ### Observations -/

def isCached (c : Cache) (p : PageId) : Bool := c.resident.contains p

/-- The cached copy of a page. -/
def handle? (c : Cache) (p : PageId) : Option Handle := c.resident[p]?.map (⟨p, ·⟩)

def size (c : Cache) : Nat := c.resident.size

def isFull (c : Cache) : Bool := c.capacity ≤ c.size

/-- The cached pages in ascending order. -/
def pages (c : Cache) : List PageId := c.resident.keys

/-- The cached copies in ascending order of their pages. -/
def handles (c : Cache) : List Handle := c.resident.toList.map fun (p, object) => ⟨p, object⟩

/-- The page that an object holds now. -/
def page? (c : Cache) (h : Handle) : Option HeapPage := c.frames[h.object]?.map (·.page)

/-- Is nobody holding the cached copy of the page? -/
def isEvictable (c : Cache) (p : PageId) : Bool :=
  match c.resident[p]? with
  | none => true
  | some object => c.frames[object]?.all (·.holders = 0)

/-- The cached page to give up next: the one not accessed for the longest time of those nobody holds. -/
def victim? (c : Cache) : Option PageId := c.recency.victim? c.isEvictable

/-! ### Changes -/

/-- The page is accessed now. -/
def touch (c : Cache) (p : PageId) : Cache := { c with recency := c.recency.access p }

/-- Replaces the page of an object. -/
def setPage (c : Cache) (h : Handle) (page : HeapPage) : Cache :=
  { c with frames := c.frames.modify h.object fun f => { f with page } }

/-- Forgets an object that is neither held nor anybody's cached copy. -/
def sweep (c : Cache) (p : PageId) (object : Nat) : Cache :=
  if c.resident[p]? ≠ some object && c.frames[object]?.all (·.holders = 0) then
    { c with frames := c.frames.erase object }
  else c

/-- Makes an object the cached copy of its page. -/
def place (c : Cache) (h : Handle) : Cache :=
  let placed := { c with resident := c.resident.insert h.page h.object }
  match c.resident[h.page]? with
  | none => placed
  | some old => placed.sweep h.page old

/-- A new object for a page that was read; it becomes the cached copy. -/
def load (c : Cache) (page : HeapPage) : Handle × Cache :=
  let h : Handle := ⟨page.id, c.nextObject⟩
  (h, ({ c with
    frames := c.frames.insert h.object ⟨page, 0⟩
    nextObject := c.nextObject + 1 }.place h).touch h.page)

/-- The page is cached no longer; its object lives on if somebody holds it. -/
def remove (c : Cache) (p : PageId) : Cache :=
  let removed := { c with resident := c.resident.erase p, recency := c.recency.remove p }
  match c.resident[p]? with
  | none => removed
  | some object => removed.sweep p object

/-- A caller holds the object, once more. -/
def hold (c : Cache) (h : Handle) : Cache :=
  { c with frames := c.frames.modify h.object fun f => { f with holders := f.holders + 1 } }

/-- A caller holds the object once less. -/
def letGo (c : Cache) (h : Handle) : Cache :=
  { c with frames := c.frames.modify h.object fun f => { f with holders := f.holders - 1 } }.sweep
    h.page h.object

end Cache

end HeapStore
