import HeapStore.Page.Codec
import HeapStore.Proofs.Page.WellFormed

/-!
# Pages are read as they were written

A well-formed page fits into its block (`WellFormed.block_bytes`), and reading the block gives a page with
the same header and the same rows (`WellFormed.decode_block`). The page that is read need not be the one
that was written: its tuples carry the page's schema, also where a tuple came with one that names the
columns differently.

Whatever bytes are read, the page is well-formed (`decode_wellFormed`). A block of zeros is the block of
a page without tuples (`decode_zero`).
-/

namespace HeapStore.HeapPage

variable {p : HeapPage} {s : Schema}

/-! ### Slots -/

theorem length_encodeSlot {entry : Option Tuple}
    (h : ∀ t, entry = some t → t.schema.sameTypes s = true) :
    (encodeSlot s.width entry).length = s.width := by
  cases entry with
  | none => exact List.length_replicate
  | some t => exact (Tuple.length_encode t).trans (Schema.width_of_sameTypes (h t rfl))

theorem length_flatMap_encodeSlot {slots : List (Option Tuple)}
    (h : ∀ t, some t ∈ slots → t.schema.sameTypes s = true) :
    (slots.flatMap (encodeSlot s.width)).length = slots.length * s.width := by
  induction slots with
  | nil => simp
  | cons entry slots ih =>
    have hentry : (encodeSlot s.width entry).length = s.width :=
      length_encodeSlot fun t ht => h t (ht ▸ List.mem_cons_self)
    rw [List.flatMap_cons, List.length_append, hentry, ih fun t ht => h t (List.mem_cons_of_mem _ ht),
      List.length_cons, Nat.add_mul, Nat.one_mul, Nat.add_comm]

/-- Slots are read back with the values they were written with, whatever stands behind them. -/
theorem decodeSlots_encodeSlot (id : PageId) {slots : List (Option Tuple)}
    (h : ∀ t, some t ∈ slots → t.schema.sameTypes s = true) (start : Nat) (rest : List UInt8) :
    ∃ read, decodeSlots id s s.width start (slots.map (·.isSome))
        (slots.flatMap (encodeSlot s.width) ++ rest) = some read ∧
      read.map (Option.map (·.values)) = slots.map (Option.map (·.values)) := by
  induction slots generalizing start with
  | nil => exact ⟨[], rfl, rfl⟩
  | cons entry slots ih =>
    obtain ⟨read, hread, hvalues⟩ := ih (fun t ht => h t (List.mem_cons_of_mem _ ht)) (start + 1)
    have hlength : (encodeSlot s.width entry).length = s.width :=
      length_encodeSlot fun t ht => h t (ht ▸ List.mem_cons_self)
    rw [List.flatMap_cons, List.append_assoc]
    cases entry with
    | none =>
      refine ⟨none :: read, ?_, by rw [List.map_cons, List.map_cons, hvalues]⟩
      rw [List.map_cons, Option.isSome_none, decodeSlots, List.drop_left' hlength, hread]
      rfl
    | some t =>
      obtain ⟨t', ht', -, hval, -⟩ := Tuple.decode_encode (h t List.mem_cons_self) []
      rw [List.append_nil] at ht'
      refine ⟨some (t'.withRecordId (some (recordId id start))) :: read, ?_, ?_⟩
      · rw [List.map_cons, Option.isSome_some, decodeSlots, List.take_left' hlength,
          List.drop_left' hlength, encodeSlot, ht']
        simp only [hread, Option.map_some]
      · rw [List.map_cons, List.map_cons, hvalues]
        exact congrArg (· :: _) (congrArg some hval)

/-- The slots that are read: there is one for each bit, filled where the bit is set, and its tuple has the
schema and the record id of the slot. -/
theorem decodeSlots_eq_some {id : PageId} {width start : Nat} {used : List Bool} {bytes : List UInt8}
    {read : List (Option Tuple)} (h : decodeSlots id s width start used bytes = some read) :
    read.map (·.isSome) = used ∧
      ∀ i t, read[i]? = some (some t) → t.schema = s ∧ t.recordId = some (recordId id (start + i)) := by
  induction used generalizing start bytes read with
  | nil =>
    obtain rfl := Option.some.inj h
    exact ⟨rfl, fun i t ht => by simp at ht⟩
  | cons bit used ih => cases bit with
    | false =>
      rw [decodeSlots, Option.map_eq_some_iff] at h
      obtain ⟨later, hlater, rfl⟩ := h
      obtain ⟨hused, htuples⟩ := ih hlater
      refine ⟨by rw [List.map_cons, hused]; rfl, ?_⟩
      intro i t ht
      cases i with
      | zero => simp at ht
      | succ i =>
        rw [Nat.add_comm i, ← Nat.add_assoc]
        exact htuples i t ht
    | true =>
      rw [decodeSlots] at h
      split at h
      · simp at h
      · next first _ hfirst =>
        rw [Option.map_eq_some_iff] at h
        obtain ⟨later, hlater, rfl⟩ := h
        obtain ⟨hused, htuples⟩ := ih hlater
        refine ⟨by rw [List.map_cons, hused]; rfl, ?_⟩
        intro i t ht
        cases i with
        | zero =>
          obtain rfl := Option.some.inj (Option.some.inj ht)
          exact ⟨(Tuple.decode_eq_some_iff.1 hfirst).1, rfl⟩
        | succ i =>
          rw [Nat.add_comm i, ← Nat.add_assoc]
          exact htuples i t ht

/-! ### Whole pages -/

theorem sameTypes_of_mem (hp : p.WellFormed) (t : Tuple) (ht : some t ∈ p.slots) :
    t.schema.sameTypes p.schema = true := by
  obtain ⟨i, hi⟩ := List.mem_iff_getElem?.1 ht
  exact (hp.stored i t (by rw [tuple?, hi]; rfl)).1

theorem WellFormed.length_encode (hp : p.WellFormed) :
    p.encode.length = slotOffset p.numSlots p.schema.width p.numSlots := by
  rw [encode, List.length_append, length_flatMap_encodeSlot (sameTypes_of_mem hp), hp.length_header, slotOffset,
    numSlots, hp.length_slots]

theorem WellFormed.length_encode_le (hp : p.WellFormed) : p.encode.length ≤ pageSize := by
  rw [hp.length_encode, slotOffset, numSlots, hp.length_slots]
  exact headerSize_add_le p.schema.width

theorem WellFormed.block_bytes (hp : p.WellFormed) :
    p.block.bytes = p.encode ++ List.replicate (pageSize - p.encode.length) 0 := by
  show (p.encode ++ List.replicate pageSize 0).take pageSize = _
  rw [List.take_append, List.take_of_length_le hp.length_encode_le, List.take_replicate,
    Nat.min_eq_left (Nat.sub_le ..)]

/-- Whether pages can hold tuples is a matter of the column types. -/
theorem checkStorable_of_sameTypes {s' : Schema} (h : s.sameTypes s' = true) (hs : s.checkStorable = .ok ()) :
    s'.checkStorable = .ok () := by
  have hcolumns : s.columns.isEmpty = s'.columns.isEmpty := by
    have hlength := congrArg List.isEmpty (Schema.sameTypes_iff.1 h)
    rwa [List.isEmpty_map, List.isEmpty_map] at hlength
  unfold Schema.checkStorable at hs ⊢
  rw [hcolumns, Schema.width_of_sameTypes h] at hs
  split at hs
  · simp at hs
  · next hnonempty =>
    rw [if_neg hnonempty]
    split at hs
    · simp at hs
    · next hroom => rw [if_neg hroom]

/-- The block of a well-formed page is read as a page with the same header and the same rows, also under other
column names. -/
theorem WellFormed.decode_block_of_sameTypes (hp : p.WellFormed) (hs : p.schema.sameTypes s = true) :
    ∃ page, decode p.id s p.block.bytes = .ok page ∧ page.rows = p.rows ∧ page.header = p.header := by
  have hwidth : p.schema.width = s.width := Schema.width_of_sameTypes hs
  have htypes : ∀ t, some t ∈ p.slots → t.schema.sameTypes s = true := fun t ht =>
    Schema.sameTypes_iff.2 ((Schema.sameTypes_iff.1 (sameTypes_of_mem hp t ht)).trans (Schema.sameTypes_iff.1 hs))
  obtain ⟨padding, hblock⟩ :
      ∃ padding, p.block.bytes = p.header ++ (p.slots.flatMap (encodeSlot s.width) ++ padding) :=
    ⟨_, hwidth ▸ hp.block_bytes.trans (List.append_assoc ..)⟩
  obtain ⟨read, hread, hvalues⟩ := decodeSlots_encodeSlot p.id htypes 0 padding
  have hheader : p.header.length = headerSize (slotsPerPage s.width) := hwidth ▸ hp.length_header
  have hused : (Bitmap.bits p.header).take (slotsPerPage s.width) = p.slots.map (·.isSome) := by
    rw [← hwidth, ← hp.length_slots]
    exact occupancy_eq hp
  refine ⟨⟨p.id, s, p.header, read, none⟩, ?_, hvalues, rfl⟩
  unfold decode
  rw [if_neg (by rw [p.block.length_bytes]; exact not_not_intro rfl), checkStorable_of_sameTypes hs hp.storable]
  simp only [hblock, List.take_left' hheader, List.drop_left' hheader, hused, hread]

theorem WellFormed.decode_block (hp : p.WellFormed) :
    ∃ page, decode p.id p.schema p.block.bytes = .ok page ∧ page.rows = p.rows ∧ page.header = p.header :=
  hp.decode_block_of_sameTypes (Schema.sameTypes_iff.2 rfl)

theorem of_decode {id : PageId} {bytes : List UInt8} (h : decode id s bytes = .ok p) :
    bytes.length = pageSize ∧ s.checkStorable = .ok () ∧ ∃ read,
      decodeSlots id s s.width 0
        ((Bitmap.bits (bytes.take (headerSize (slotsPerPage s.width)))).take (slotsPerPage s.width))
        (bytes.drop (headerSize (slotsPerPage s.width))) = some read ∧
      p = ⟨id, s, bytes.take (headerSize (slotsPerPage s.width)), read, none⟩ := by
  unfold decode at h
  split at h
  · simp at h
  · next hlength =>
    split at h
    · simp at h
    · next hstorable =>
      dsimp only at h
      split at h
      · simp at h
      · next read hread => exact ⟨by simpa using hlength, hstorable, read, hread, (Except.ok.inj h).symm⟩

theorem schema_of_decode {id : PageId} {bytes : List UInt8} (h : decode id s bytes = .ok p) {slot : Nat} {t : Tuple}
    (ht : p.tuple? slot = some t) : t.schema = s := by
  obtain ⟨-, -, read, hread, rfl⟩ := of_decode h
  have hentry : read[slot]? = some (some t) := by simpa [tuple?, Option.join_eq_some_iff] using ht
  exact ((decodeSlots_eq_some hread).2 slot t hentry).1

/-- Every page that is read is well-formed, clean, and has the id and the schema that it was read for. -/
theorem decode_wellFormed {id : PageId} {bytes : List UInt8} (h : decode id s bytes = .ok p) :
    p.WellFormed ∧ p.id = id ∧ p.schema = s ∧ p.dirtiedBy = none := by
  obtain ⟨hpage, hstorable, read, hread, rfl⟩ := of_decode h
  obtain ⟨hused, htuples⟩ := decodeSlots_eq_some hread
  have hheader : (bytes.take (headerSize (slotsPerPage s.width))).length =
      headerSize (slotsPerPage s.width) := by
    have hfits := headerSize_add_le s.width
    rw [List.length_take, hpage, Nat.min_eq_left (by omega)]
  have hslots : read.length = slotsPerPage s.width := by
    have hbits := slotsPerPage_le_bits s.width
    rw [← List.length_map (f := Option.isSome), hused, List.length_take, Bitmap.length_bits, hheader,
      Nat.min_eq_left hbits]
  refine ⟨⟨hstorable, hheader, hslots, ?_, ?_⟩, rfl, rfl, rfl⟩
  · intro slot hslot
    have hbits := slotsPerPage_le_bits s.width
    have hin : slot < read.length := hslot
    have hlt : slot < slotsPerPage s.width := hslots ▸ hin
    have hbit := congrArg (·[slot]?) hused
    simp only [List.getElem?_map, List.getElem?_eq_getElem hin, Option.map_some,
      List.getElem?_take_of_lt hlt] at hbit
    rw [Bitmap.getElem?_bits (by rw [hheader]; omega)] at hbit
    rw [← Option.some.inj hbit, tuple?, List.getElem?_eq_getElem hin]
    rfl
  · intro slot t ht
    have hentry : read[slot]? = some (some t) := by
      simpa [tuple?, Option.join_eq_some_iff] using ht
    obtain ⟨hschema, hrecord⟩ := htuples slot t hentry
    rw [Nat.zero_add] at hrecord
    exact ⟨Schema.sameTypes_iff.2 (by rw [hschema]), hrecord⟩

/-! ### Pages without tuples -/

theorem decodeSlots_replicate_false (id : PageId) (width start n : Nat) (bytes : List UInt8) :
    decodeSlots id s width start (List.replicate n false) bytes = some (List.replicate n none) := by
  induction n generalizing start bytes with
  | zero => rfl
  | succ n ih =>
    rw [List.replicate_succ, decodeSlots, ih]
    rfl

theorem bits_replicate_zero (n : Nat) :
    Bitmap.bits (List.replicate n 0) = List.replicate (8 * n) false := by
  induction n with
  | zero => rfl
  | succ n ih =>
    have hbyte : Bitmap.byteBits 0 = List.replicate 8 false := rfl
    rw [List.replicate_succ, Bitmap.bits, List.flatMap_cons, ← Bitmap.bits, ih, hbyte,
      List.replicate_append_replicate, Nat.mul_succ, Nat.add_comm]

theorem decode_zero (id : PageId) (hs : s.checkStorable = .ok ()) :
    decode id s Block.zero.bytes = .ok (blank id s) := by
  have hfits := headerSize_add_le s.width
  have hheader : Block.zero.bytes.take (headerSize (slotsPerPage s.width)) =
      List.replicate (headerSize (slotsPerPage s.width)) 0 := by
    rw [Block.zero, List.take_replicate, Nat.min_eq_left (by omega)]
  have hused : (Bitmap.bits (List.replicate (headerSize (slotsPerPage s.width)) 0)).take (slotsPerPage s.width) =
      List.replicate (slotsPerPage s.width) false := by
    rw [bits_replicate_zero, List.take_replicate, Nat.min_eq_left (slotsPerPage_le_bits _)]
  unfold decode
  rw [if_neg (by rw [Block.zero.length_bytes]; exact not_not_intro rfl), hs]
  simp only [hheader, hused, decodeSlots_replicate_false]
  rfl

theorem rows_blank (id : PageId) (s : Schema) :
    (blank id s).rows = List.replicate (slotsPerPage s.width) none := by
  rw [rows, blank, List.map_replicate]
  rfl

end HeapStore.HeapPage
