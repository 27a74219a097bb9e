import HeapStore.Page.Basic
import HeapStore.Record.Codec

/-!
# Pages as blocks

A page is written as its bitmap, then slot after slot, a free slot as zeros, then zeros up to the end of
the block. A block is read by its bitmap: only the slots in use are decoded, and one malformed record
makes the whole block unreadable.
-/

namespace HeapStore.HeapPage

/-- The bytes of one slot. -/
def encodeSlot (width : Nat) : Option Tuple → List UInt8
  | some t => t.encode
  | none => List.replicate width 0

/-- The bitmap and the slots. -/
def encode (p : HeapPage) : List UInt8 := p.header ++ p.slots.flatMap (encodeSlot p.schema.width)

/-- The page as it is written to a file. -/
def block (p : HeapPage) : Block := .padded p.encode

/-- Reads one record for each slot in use, numbering the slots from `slot` on, and skips a record's width
for each free one. -/
def decodeSlots (id : PageId) (s : Schema) (width : Nat) :
    Nat → List Bool → List UInt8 → Option (List (Option Tuple))
  | _, [], _ => some []
  | slot, false :: used, bytes =>
    (decodeSlots id s width (slot + 1) used (bytes.drop width)).map (none :: ·)
  | slot, true :: used, bytes =>
    match Tuple.decode s (bytes.take width) with
    | none => none
    | some (t, _) =>
      (decodeSlots id s width (slot + 1) used (bytes.drop width)).map
        (some (t.withRecordId (some (recordId id slot))) :: ·)

/-- The page that these bytes are the block of. -/
def decode (id : PageId) (s : Schema) (bytes : List UInt8) : Except StorageError HeapPage :=
  if bytes.length ≠ pageSize then .error (.corruptPage id)
  else
    match s.checkStorable with
    | .error e => .error e
    | .ok () =>
      let slots := slotsPerPage s.width
      let header := bytes.take (headerSize slots)
      match decodeSlots id s s.width 0 ((Bitmap.bits header).take slots) (bytes.drop (headerSize slots)) with
      | none => .error (.corruptPage id)
      | some read => .ok ⟨id, s, header, read, none⟩

end HeapStore.HeapPage
