/-!
# Layout of a page

A page starts with a bitmap of one bit for each slot, rounded up to whole bytes; the slots follow, each as
wide as a record; what is left at the end is padding. A slot costs its record's bytes and one bit, so
the number of slots is the number of bits of a page over those of a slot.
-/

namespace HeapStore

/-- The bytes of a page. -/
def pageSize : Nat := 4096

/-- The number of records of that width that a page holds. -/
def slotsPerPage (width : Nat) : Nat := pageSize * 8 / (width * 8 + 1)

/-- The bytes of the bitmap for that many slots. -/
def headerSize (slots : Nat) : Nat := (slots + 7) / 8

/-- Where the record of a slot starts, on a page with that many slots. -/
def slotOffset (slots width slot : Nat) : Nat := headerSize slots + slot * width

/-- The bytes of one page. -/
structure Block where
  bytes : List UInt8
  length_bytes : bytes.length = pageSize
deriving DecidableEq

namespace Block

def zero : Block := ⟨List.replicate pageSize 0, List.length_replicate⟩

/-- The block of these bytes, if there are as many as a page has. -/
def ofBytes? (bytes : List UInt8) : Option Block :=
  if h : bytes.length = pageSize then some ⟨bytes, h⟩ else none

/-- The block that starts with these bytes and goes on with zeros. -/
def padded (bytes : List UInt8) : Block where
  bytes := (bytes ++ List.replicate pageSize 0).take pageSize
  length_bytes := by simp

end Block

end HeapStore
