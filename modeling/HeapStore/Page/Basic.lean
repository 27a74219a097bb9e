import HeapStore.Page.Bitmap
import HeapStore.Page.Layout
import HeapStore.Record.Tuple

/-!
# Heap pages

A heap page holds tuples of one table in equal slots and a bitmap that says which slots are in use. The
bitmap is what decides whether a slot is in use; bits past the last slot are kept as they were read.

A tuple goes to the lowest free slot, and a tuple is removed by its record id. Each change either
succeeds and gives the new page or fails and gives none.
-/

namespace HeapStore

/-- Can tuples of this schema be stored in pages at all? -/
def Schema.checkStorable (s : Schema) : Except StorageError Unit :=
  if s.columns.isEmpty then .error .noColumns
  else if slotsPerPage s.width = 0 then .error (.recordTooLarge s.width)
  else .ok ()

structure HeapPage where
  id : PageId
  schema : Schema
  /-- The bitmap, as bytes. -/
  header : List UInt8
  /-- The tuple of each slot. -/
  slots : List (Option Tuple)
  /-- The transaction that last changed the page since it was read or written. -/
  dirtiedBy : Option TxnId
deriving DecidableEq

namespace HeapPage

/-- The page with every slot free. -/
def blank (id : PageId) (s : Schema) : HeapPage where
  id := id
  schema := s
  header := List.replicate (headerSize (slotsPerPage s.width)) 0
  slots := List.replicate (slotsPerPage s.width) none
  dirtiedBy := none

/-- The page with every slot free, if the schema can be stored. -/
def empty (id : PageId) (s : Schema) : Except StorageError HeapPage :=
  s.checkStorable.map fun _ => blank id s

/-! ### Observations -/

def numSlots (p : HeapPage) : Nat := p.slots.length

/-- For each slot whether it is in use. -/
def occupancy (p : HeapPage) : List Bool := (Bitmap.bits p.header).take p.numSlots

def isUsed (p : HeapPage) (slot : Nat) : Bool := slot < p.numSlots && Bitmap.test p.header slot

def numFree (p : HeapPage) : Nat := p.occupancy.count false

/-- Is no bit of the bitmap set? -/
def isEmpty (p : HeapPage) : Bool := Bitmap.isClear p.header

/-- The tuple in a slot. -/
def tuple? (p : HeapPage) (slot : Nat) : Option Tuple := p.slots[slot]?.join

/-- The first slot in use, from `start` on. -/
def nextUsed? (p : HeapPage) (start : Nat) : Option Nat :=
  ((p.occupancy.drop start).findIdx? (· = true)).map (start + ·)

/-- The lowest slot that is not in use. -/
def firstFree? (p : HeapPage) : Option Nat := p.occupancy.findIdx? (!·)

/-- The stored tuples in slot order. -/
def tuples (p : HeapPage) : List Tuple := p.slots.filterMap (·)

def isDirty (p : HeapPage) : Bool := p.dirtiedBy.isSome

/-- The record id of a slot of the page. -/
def recordId (id : PageId) (slot : Nat) : RecordId := ⟨id, UInt16.ofNat slot⟩

/-! ### Changes -/

/-- Puts a tuple into the lowest free slot. The answer is the tuple with its new record id, and the page. -/
def insert (p : HeapPage) (t : Tuple) : Except StorageError (Tuple × HeapPage) :=
  if !t.schema.sameTypes p.schema then .error (.schemaMismatch p.id.table)
  else
    match p.firstFree? with
    | none => .error (.pageFull p.id)
    | some slot =>
      let stored := t.withRecordId (some (recordId p.id slot))
      .ok (stored,
        { p with header := Bitmap.write p.header slot true, slots := p.slots.set slot (some stored) })

/-- Frees the slot that a record id names. -/
def delete (p : HeapPage) (r : Option RecordId) : Except StorageError HeapPage :=
  match r with
  | none => .error .tupleNotLocated
  | some r =>
    let slot := r.slot.toNat
    if r.page ≠ p.id then .error (.pageNotFound r.page)
    else if p.numSlots ≤ slot then .error (.invalidSlot r.slot)
    else if !p.isUsed slot then .error (.slotEmpty p.id r.slot)
    else
      .ok { p with header := Bitmap.write p.header slot false, slots := p.slots.set slot none }

def markDirty (p : HeapPage) (txn : TxnId) : HeapPage := { p with dirtiedBy := some txn }

def markClean (p : HeapPage) : HeapPage := { p with dirtiedBy := none }

end HeapPage

end HeapStore
