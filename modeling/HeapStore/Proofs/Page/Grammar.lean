import HeapStore.Proofs.Page.Changes
import HeapStore.Proofs.Record.Grammar

/-!
# Which bytes are pages

A block is a page of a schema if the texts of each record that the bitmap says is stored are well-formed
(`HeapPage.IsPage`). Nothing else is looked at: not the free slots, not the bits past the last slot and
not the bytes after it.

* The reader never leaves the block: reading with checks, which takes every byte by its offset, gives the
  same on all byte strings (`run_readChecked`).
* A page that was read and written keeps its bitmap and its rows; the records are then in their canonical
  form, and the rest is zeros (`block_bytes_of_decode`).

`page_grammar` puts these together.
-/

namespace HeapStore

namespace HeapPage

variable {p q : HeapPage} {id : PageId} {s : Schema} {bytes : List UInt8}

/-! ### The parts of a block -/

/-- The bytes at the offset of a slot. -/
def recordAt (s : Schema) (bytes : List UInt8) (slot : Nat) : List UInt8 :=
  (bytes.drop (slotOffset (slotsPerPage s.width) s.width slot)).take s.width

/-- The bytes after the last slot. -/
def paddingOf (s : Schema) (bytes : List UInt8) : List UInt8 :=
  bytes.drop (slotOffset (slotsPerPage s.width) s.width (slotsPerPage s.width))

/-- Do the bytes make a page? There are as many as a page has, and the texts of the records in use are
well-formed. -/
structure IsPage (s : Schema) (bytes : List UInt8) : Prop where
  length_eq : bytes.length = pageSize
  texts : ∀ slot < slotsPerPage s.width, Bitmap.test bytes slot = true →
    ∀ i c capacity, s.columns[i]? = some c → c.type = .char capacity →
      Record.IsText capacity.toNat (Record.fieldAt s.columns (recordAt s bytes slot) i c)

/-- A slot in the form in which it is written. -/
def canonicalSlot (s : Schema) (bytes : List UInt8) (slot : Nat) : List UInt8 :=
  if Bitmap.test bytes slot then Record.canonical s.columns (recordAt s bytes slot)
  else List.replicate s.width 0

/-- The block in the form in which its page is written: the bitmap as it is, the slots, and zeros. -/
def canonicalBlock (s : Schema) (bytes : List UInt8) : List UInt8 :=
  bytes.take (headerSize (slotsPerPage s.width))
    ++ (List.range (slotsPerPage s.width)).flatMap (canonicalSlot s bytes)
    ++ List.replicate (paddingOf s bytes).length 0

/-- Are the bytes in that form already? -/
structure IsCanonical (s : Schema) (bytes : List UInt8) : Prop where
  records : ∀ slot < slotsPerPage s.width, Bitmap.test bytes slot = true →
    ∀ i (c : Column), s.columns[i]? = some c →
      c.type.IsCanonical (Record.fieldAt s.columns (recordAt s bytes slot) i c)
  free : ∀ slot < slotsPerPage s.width, Bitmap.test bytes slot = false → ∀ b ∈ recordAt s bytes slot, b = 0
  padding : ∀ b ∈ paddingOf s bytes, b = 0

theorem slotOffset_add_le {width slot : Nat} (hslot : slot < slotsPerPage width) :
    slotOffset (slotsPerPage width) width slot + width ≤ pageSize := by
  have hfits := headerSize_add_le width
  have hslots : (slot + 1) * width ≤ slotsPerPage width * width := Nat.mul_le_mul_right width hslot
  rw [Nat.add_mul, Nat.one_mul] at hslots
  rw [slotOffset]
  omega

theorem length_recordAt (hlength : bytes.length = pageSize) {slot : Nat} (hslot : slot < slotsPerPage s.width) :
    (recordAt s bytes slot).length = s.width := by
  have hinside := slotOffset_add_le hslot
  rw [recordAt, List.length_take, List.length_drop, hlength]
  omega

theorem test_take {slot n : Nat} (h : slot / 8 < n) : Bitmap.test (bytes.take n) slot = Bitmap.test bytes slot := by
  rw [Bitmap.test, Bitmap.test, List.getD_eq_getElem?_getD, List.getD_eq_getElem?_getD, List.getElem?_take_of_lt h]

theorem div_lt_headerSize {width slot : Nat} (hslot : slot < slotsPerPage width) :
    slot / 8 < headerSize (slotsPerPage width) := by
  rw [headerSize]
  omega

theorem length_header_of_page (hlength : bytes.length = pageSize) :
    (bytes.take (headerSize (slotsPerPage s.width))).length = headerSize (slotsPerPage s.width) := by
  have hfits := headerSize_add_le s.width
  rw [List.length_take, hlength]
  omega

/-! ### The entries that are read -/

/-- What is read in a slot, by its bit and its bytes. -/
def readEntry (id : PageId) (s : Schema) (slot : Nat) (record : List UInt8) : Bool → Option (Option Tuple)
  | false => some none
  | true => (Tuple.decode s record).map fun read => some (read.1.withRecordId (some (recordId id slot)))

theorem decodeSlots_cons (width start : Nat) (bit : Bool) (used : List Bool) :
    decodeSlots id s width start (bit :: used) bytes =
      (readEntry id s start (bytes.take width) bit).bind fun entry =>
        (decodeSlots id s width (start + 1) used (bytes.drop width)).map (entry :: ·) := by
  cases bit with
  | false => rfl
  | true =>
    rw [decodeSlots, readEntry]
    cases Tuple.decode s (bytes.take width) with
    | none => rfl
    | some read => rfl

theorem take_drop_succ (width i : Nat) (bytes : List UInt8) :
    (bytes.drop ((i + 1) * width)).take width = ((bytes.drop width).drop (i * width)).take width := by
  rw [List.drop_drop, Nat.add_mul, Nat.one_mul, Nat.add_comm]

/-- The slots are read one by one, each at its own place. -/
theorem decodeSlots_eq_some_iff {width start : Nat} {used : List Bool} {read : List (Option Tuple)} :
    decodeSlots id s width start used bytes = some read ↔
      read.length = used.length ∧ ∀ (i : Nat) (bit : Bool), used[i]? = some bit →
        readEntry id s (start + i) ((bytes.drop (i * width)).take width) bit = read[i]? := by
  induction used generalizing start bytes read with
  | nil => simp [decodeSlots, eq_comm]
  | cons bit used ih =>
    rw [decodeSlots_cons, Option.bind_eq_some_iff]
    constructor
    · rintro ⟨entry, hentry, hread⟩
      obtain ⟨later, hlater, rfl⟩ := Option.map_eq_some_iff.1 hread
      obtain ⟨hlength, hall⟩ := ih.1 hlater
      refine ⟨congrArg (· + 1) hlength, fun i bit' hbit => ?_⟩
      cases i with
      | zero =>
        obtain rfl := Option.some.inj hbit
        rw [Nat.zero_mul]
        exact hentry
      | succ i =>
        have hplace : start + (i + 1) = start + 1 + i := by omega
        rw [take_drop_succ, hplace]
        exact hall i bit' hbit
    · rintro ⟨hlength, hall⟩
      cases read with
      | nil => simp at hlength
      | cons entry later =>
        have hlater : decodeSlots id s width (start + 1) used (bytes.drop width) = some later := by
          refine ih.2 ⟨Nat.succ.inj hlength, fun i bit' hbit => ?_⟩
          rw [Nat.add_right_comm, ← take_drop_succ]
          exact hall (i + 1) bit' hbit
        have hentry := hall 0 bit rfl
        rw [Nat.zero_mul] at hentry
        exact ⟨entry, hentry, Option.map_eq_some_iff.2 ⟨later, hlater, rfl⟩⟩

theorem isSome_decodeSlots {width start : Nat} {used : List Bool} :
    (decodeSlots id s width start used bytes).isSome = true ↔
      ∀ i : Nat, used[i]? = some true → Record.IsRecord s.columns ((bytes.drop (i * width)).take width) := by
  induction used generalizing start bytes with
  | nil => simp [decodeSlots]
  | cons bit used ih =>
    have hentry : (readEntry id s start (bytes.take width) bit).isSome = true ↔
        (bit = true → Record.IsRecord s.columns (bytes.take width)) := by
      cases bit with
      | false => simp [readEntry]
      | true => simp [readEntry, ← Tuple.isSome_decode]
    have hsplit : (decodeSlots id s width start (bit :: used) bytes).isSome = true ↔
        (readEntry id s start (bytes.take width) bit).isSome = true ∧
          (decodeSlots id s width (start + 1) used (bytes.drop width)).isSome = true := by
      rw [decodeSlots_cons]
      cases readEntry id s start (bytes.take width) bit with
      | none => simp
      | some entry => simp
    rw [hsplit, hentry, ih]
    constructor
    · rintro ⟨hfirst, hlater⟩ i hbit
      cases i with
      | zero =>
        rw [Nat.zero_mul]
        exact hfirst (Option.some.inj hbit)
      | succ i =>
        rw [take_drop_succ]
        exact hlater i hbit
    · intro hall
      refine ⟨fun hbit => ?_, fun i hbit => ?_⟩
      · have h := hall 0 (congrArg some hbit)
        rwa [Nat.zero_mul] at h
      · rw [← take_drop_succ]
        exact hall (i + 1) hbit

/-! ### Which blocks are read -/

theorem checkStorable_eq_ok_iff : s.checkStorable = .ok () ↔ s.columns ≠ [] ∧ 0 < slotsPerPage s.width := by
  rw [Schema.checkStorable, Nat.pos_iff_ne_zero]
  split
  · next h => simp [List.isEmpty_iff.1 h]
  · next h =>
    have hcolumns : s.columns ≠ [] := fun hnil => h (List.isEmpty_iff.2 hnil)
    split
    · next hzero => simp [hzero]
    · next hslots => simp [hcolumns, hslots]

/-- The bits of the slots, as they are read. -/
def usedSlots (s : Schema) (bytes : List UInt8) : List Bool :=
  (Bitmap.bits (bytes.take (headerSize (slotsPerPage s.width)))).take (slotsPerPage s.width)

theorem length_usedSlots (hlength : bytes.length = pageSize) :
    (usedSlots s bytes).length = slotsPerPage s.width := by
  rw [usedSlots, List.length_take, Bitmap.length_bits, length_header_of_page hlength,
    Nat.min_eq_left (slotsPerPage_le_bits s.width)]

theorem getElem?_usedSlots_eq_some_iff (hlength : bytes.length = pageSize) {slot : Nat} {bit : Bool} :
    (usedSlots s bytes)[slot]? = some bit ↔ slot < slotsPerPage s.width ∧ Bitmap.test bytes slot = bit := by
  by_cases hslot : slot < slotsPerPage s.width
  · have hbits := slotsPerPage_le_bits s.width
    rw [usedSlots, List.getElem?_take_of_lt hslot, Bitmap.getElem?_bits, test_take (div_lt_headerSize hslot),
      Option.some.injEq, and_iff_right hslot]
    rw [length_header_of_page hlength]
    omega
  · rw [List.getElem?_eq_none (by rw [length_usedSlots hlength]; omega)]
    simp [hslot]

theorem recordAt_eq (slot : Nat) :
    ((bytes.drop (headerSize (slotsPerPage s.width))).drop (slot * s.width)).take s.width =
      recordAt s bytes slot := by
  rw [List.drop_drop, recordAt, slotOffset]

theorem decode_of_length (id : PageId) (hs : s.checkStorable = .ok ()) (hlength : bytes.length = pageSize) :
    decode id s bytes =
      match decodeSlots id s s.width 0 (usedSlots s bytes) (bytes.drop (headerSize (slotsPerPage s.width))) with
      | none => .error (.corruptPage id)
      | some read => .ok ⟨id, s, bytes.take (headerSize (slotsPerPage s.width)), read, none⟩ := by
  rw [decode, if_neg (not_not_intro hlength), hs]
  rfl

theorem decode_eq_ok_iff (hs : s.checkStorable = .ok ()) (hlength : bytes.length = pageSize) :
    decode id s bytes = .ok p ↔
      p.id = id ∧ p.schema = s ∧ p.dirtiedBy = none ∧
        p.header = bytes.take (headerSize (slotsPerPage s.width)) ∧ p.slots.length = slotsPerPage s.width ∧
        ∀ slot < slotsPerPage s.width,
          readEntry id s slot (recordAt s bytes slot) (Bitmap.test bytes slot) = p.slots[slot]? := by
  have hslots : ∀ read, decodeSlots id s s.width 0 (usedSlots s bytes)
      (bytes.drop (headerSize (slotsPerPage s.width))) = some read ↔ read.length = slotsPerPage s.width ∧
        ∀ slot < slotsPerPage s.width,
          readEntry id s slot (recordAt s bytes slot) (Bitmap.test bytes slot) = read[slot]? := by
    intro read
    simp only [decodeSlots_eq_some_iff, length_usedSlots hlength, getElem?_usedSlots_eq_some_iff hlength,
      recordAt_eq, Nat.zero_add]
    refine and_congr_right' ⟨fun h slot hslot => h slot _ ⟨hslot, rfl⟩, ?_⟩
    rintro h slot _ ⟨hslot, rfl⟩
    exact h slot hslot
  obtain ⟨id', schema, header, slots, dirtiedBy⟩ := p
  rw [decode_of_length id hs hlength]
  constructor
  · intro h
    split at h
    · simp at h
    · next read hread =>
      obtain ⟨rfl, rfl, rfl, rfl, rfl⟩ := HeapPage.mk.injEq .. ▸ Except.ok.inj h
      exact ⟨rfl, rfl, rfl, rfl, (hslots _).1 hread⟩
  · rintro ⟨hid, hschema, hclean, hheader, hread⟩
    rw [(hslots _).2 hread, Except.ok.injEq, HeapPage.mk.injEq]
    exact ⟨hid.symm, hschema.symm, hheader.symm, rfl, hclean.symm⟩

/-- The blocks that are read are the pages. -/
theorem exists_decode_eq_ok_iff (id : PageId) (hs : s.checkStorable = .ok ()) :
    (∃ p, decode id s bytes = .ok p) ↔ IsPage s bytes := by
  by_cases hlength : bytes.length = pageSize
  · have hread : (∃ p, decode id s bytes = .ok p) ↔ (decodeSlots id s s.width 0 (usedSlots s bytes)
        (bytes.drop (headerSize (slotsPerPage s.width)))).isSome = true := by
      rw [decode_of_length id hs hlength]
      split
      · next hnone => simp [hnone]
      · next hsome => simp [hsome]
    rw [hread, isSome_decodeSlots]
    simp only [getElem?_usedSlots_eq_some_iff hlength, recordAt_eq]
    constructor
    · intro h
      exact ⟨hlength, fun slot hslot hbit => (h slot ⟨hslot, hbit⟩).texts⟩
    · rintro ⟨-, htexts⟩ slot ⟨hslot, hbit⟩
      exact ⟨Nat.le_of_eq (length_recordAt hlength hslot).symm, htexts slot hslot hbit⟩
  · refine ⟨?_, fun h => absurd h.length_eq hlength⟩
    rintro ⟨p, hp⟩
    rw [decode, if_pos hlength] at hp
    simp at hp

theorem decode_eq_error (id : PageId) (hs : s.checkStorable = .ok ()) (h : ¬ ∃ p, decode id s bytes = .ok p) :
    decode id s bytes = .error (.corruptPage id) := by
  by_cases hlength : bytes.length = pageSize
  · rw [decode_of_length id hs hlength] at h ⊢
    split
    · rfl
    · next hsome =>
      rw [hsome] at h
      exact absurd ⟨_, rfl⟩ h
  · rw [decode, if_pos hlength]

/-! ### Reading with checks -/

/-- The bytes from `start` up to `stop`, if all of them are there. -/
def slice? (bytes : List UInt8) (start stop : Nat) : Option (List UInt8) :=
  if start ≤ stop ∧ stop ≤ bytes.length then some ((bytes.drop start).take (stop - start)) else none

theorem slice?_add {start length : Nat} (h : start + length ≤ bytes.length) :
    slice? bytes start (start + length) = some ((bytes.drop start).take length) := by
  rw [slice?, if_pos ⟨Nat.le_add_right .., h⟩, Nat.add_sub_cancel_left]

/-- Reads one slot: looks its bit up in the bitmap and, if it is set, takes the record at the slot's offset.
There is no outcome if a byte that it looks for is not there. -/
def readSlot (id : PageId) (s : Schema) (header bytes : List UInt8) (slot : Nat) :
    ExceptT StorageError Option (Option Tuple) := do
  let byte ← ExceptT.lift header[slot / 8]?
  if byte.toNat.testBit (slot % 8) then
    let record ← ExceptT.lift
      (slice? bytes (header.length + slot * s.width) (header.length + slot * s.width + s.width))
    match Tuple.decode s record with
    | none => throw (.corruptPage id)
    | some (t, _) => return some (t.withRecordId (some (recordId id slot)))
  else return none

/-- Reads slot after slot, up to the first one that cannot be read. -/
def readSlots (id : PageId) (s : Schema) (header bytes : List UInt8) :
    List Nat → ExceptT StorageError Option (List (Option Tuple))
  | [] => return []
  | slot :: slots => do
    let entry ← readSlot id s header bytes slot
    let later ← readSlots id s header bytes slots
    return entry :: later

/-- Reads a page by offsets, with each byte looked for before it is taken. There is no outcome if one of
them is not there. -/
def readChecked (id : PageId) (s : Schema) (bytes : List UInt8) : ExceptT StorageError Option HeapPage := do
  if bytes.length ≠ pageSize then throw (.corruptPage id)
  ExceptT.mk (some s.checkStorable)
  let header ← ExceptT.lift (slice? bytes 0 (headerSize (slotsPerPage s.width)))
  let slots ← readSlots id s header bytes (List.range (slotsPerPage s.width))
  return ⟨id, s, header, slots, none⟩

theorem run_readSlot (id : PageId) (hlength : bytes.length = pageSize) {slot : Nat}
    (hslot : slot < slotsPerPage s.width) :
    (readSlot id s (bytes.take (headerSize (slotsPerPage s.width))) bytes slot).run =
      some ((readEntry id s slot (recordAt s bytes slot) (Bitmap.test bytes slot)).elim
        (.error (.corruptPage id)) .ok) := by
  have hheader := length_header_of_page (s := s) hlength
  have hinside := slotOffset_add_le hslot
  obtain ⟨byte, hbyte, htest⟩ : ∃ byte, (bytes.take (headerSize (slotsPerPage s.width)))[slot / 8]? = some byte ∧
      byte.toNat.testBit (slot % 8) = Bitmap.test bytes slot := by
    have hlt : slot / 8 < bytes.length := by
      have hdiv := div_lt_headerSize hslot
      have hfits := headerSize_add_le s.width
      omega
    refine ⟨bytes[slot / 8], ?_, ?_⟩
    · rw [List.getElem?_take_of_lt (div_lt_headerSize hslot), List.getElem?_eq_getElem hlt]
    · rw [Bitmap.test, List.getD_eq_getElem?_getD, List.getElem?_eq_getElem hlt, Option.getD_some]
  have hrecord : slice? bytes (headerSize (slotsPerPage s.width) + slot * s.width)
      (headerSize (slotsPerPage s.width) + slot * s.width + s.width) = some (recordAt s bytes slot) :=
    slice?_add (by rw [hlength]; exact hinside)
  rw [readSlot, hbyte, hheader, hrecord, ExceptT.run_bind, ExceptT.run_lift]
  cases hbit : Bitmap.test bytes slot with
  | false => simp [readEntry, htest, hbit]
  | true =>
    cases hread : Tuple.decode s (recordAt s bytes slot) with
    | none => simp [readEntry, htest, hbit, hread]
    | some read => simp [readEntry, htest, hbit, hread]

theorem run_readSlots (id : PageId) (hlength : bytes.length = pageSize) (start : Nat) {used : List Bool}
    (hused : ∀ (i : Nat) (bit : Bool), used[i]? = some bit →
      start + i < slotsPerPage s.width ∧ Bitmap.test bytes (start + i) = bit) :
    (readSlots id s (bytes.take (headerSize (slotsPerPage s.width))) bytes (List.range' start used.length)).run =
      some ((decodeSlots id s s.width start used
        (bytes.drop (slotOffset (slotsPerPage s.width) s.width start))).elim (.error (.corruptPage id)) .ok) := by
  induction used generalizing start with
  | nil => rfl
  | cons bit used ih =>
    obtain ⟨hslot, hbit⟩ := hused 0 bit rfl
    rw [Nat.add_zero] at hslot hbit
    have hlater := ih (start + 1) fun i bit' h => by
      have hplace : start + 1 + i = start + (i + 1) := by omega
      rw [hplace]
      exact hused (i + 1) bit' h
    have hnext : (bytes.drop (slotOffset (slotsPerPage s.width) s.width start)).drop s.width =
        bytes.drop (slotOffset (slotsPerPage s.width) s.width (start + 1)) := by
      rw [List.drop_drop, slotOffset, slotOffset, Nat.add_mul, Nat.one_mul, Nat.add_assoc]
    rw [List.length_cons, List.range'_succ, readSlots, decodeSlots_cons, hnext, ExceptT.run_bind,
      run_readSlot id hlength hslot, hbit, ← recordAt]
    cases readEntry id s start (recordAt s bytes start) bit with
    | none => rfl
    | some entry =>
      show (readSlots id s (bytes.take (headerSize (slotsPerPage s.width))) bytes
        (List.range' (start + 1) used.length) >>= fun later => pure (entry :: later)).run = _
      rw [ExceptT.run_bind, hlater]
      cases decodeSlots id s s.width (start + 1) used
          (bytes.drop (slotOffset (slotsPerPage s.width) s.width (start + 1))) with
      | none => rfl
      | some later => rfl

/-- Reading a page never looks for a byte that is not there. -/
theorem run_readChecked (id : PageId) (s : Schema) (bytes : List UInt8) :
    (readChecked id s bytes).run = some (decode id s bytes) := by
  by_cases hlength : bytes.length = pageSize
  · cases hs : s.checkStorable with
    | error e =>
      rw [readChecked, decode, if_neg (not_not_intro hlength), if_neg (not_not_intro hlength), hs]
      rfl
    | ok =>
      have hfits := headerSize_add_le s.width
      have hheader : slice? bytes 0 (headerSize (slotsPerPage s.width)) =
          some (bytes.take (headerSize (slotsPerPage s.width))) := by
        rw [slice?, if_pos ⟨Nat.zero_le _, by omega⟩]
        rfl
      have hused : ∀ (i : Nat) (bit : Bool), (usedSlots s bytes)[i]? = some bit →
          0 + i < slotsPerPage s.width ∧ Bitmap.test bytes (0 + i) = bit := by
        intro i bit h
        rw [Nat.zero_add]
        exact (getElem?_usedSlots_eq_some_iff hlength).1 h
      have hslots := run_readSlots id hlength 0 hused
      rw [length_usedSlots hlength, ← List.range_eq_range', slotOffset, Nat.zero_mul, Nat.add_zero] at hslots
      rw [decode_of_length id hs hlength, readChecked, if_neg (not_not_intro hlength), hs, hheader]
      show (readSlots id s (bytes.take (headerSize (slotsPerPage s.width))) bytes
        (List.range (slotsPerPage s.width)) >>= fun slots => pure _).run = _
      rw [ExceptT.run_bind, hslots]
      cases decodeSlots id s s.width 0 (usedSlots s bytes)
          (bytes.drop (headerSize (slotsPerPage s.width))) with
      | none => rfl
      | some read => rfl
  · rw [readChecked, decode, if_pos hlength, if_pos hlength]
    rfl

/-! ### Writing what was read -/

theorem stored_of_decode (hs : s.checkStorable = .ok ()) (hlength : bytes.length = pageSize)
    (h : decode id s bytes = .ok p) {slot : Nat} {t : Tuple} (ht : p.slots[slot]? = some (some t)) :
    t.schema = s ∧ t.recordId = some (recordId id slot) := by
  obtain ⟨-, -, -, -, hslots, hread⟩ := (decode_eq_ok_iff hs hlength).1 h
  have hslot : slot < slotsPerPage s.width := hslots ▸ (List.getElem?_eq_some_iff.1 ht).1
  have hentry := hread slot hslot
  rw [ht] at hentry
  cases hbit : Bitmap.test bytes slot with
  | false =>
    rw [hbit, readEntry] at hentry
    simp at hentry
  | true =>
    rw [hbit, readEntry, Option.map_eq_some_iff] at hentry
    obtain ⟨⟨t', rest⟩, hdecode, hsome⟩ := hentry
    obtain rfl := Option.some.inj hsome
    exact ⟨(Tuple.decode_eq_some_iff.1 hdecode).1, rfl⟩

theorem length_of_decode (h : decode id s bytes = .ok p) : bytes.length = pageSize := by
  by_contra hlength
  rw [decode, if_pos hlength] at h
  simp at h

/-- Pages that were read and store the same are the same. -/
theorem eq_of_decode {bytes' : List UInt8} (hs : s.checkStorable = .ok ()) (h : decode id s bytes = .ok p)
    (h' : decode id s bytes' = .ok q) (hheader : p.header = q.header) (hrows : p.rows = q.rows) : p = q := by
  have hlength := length_of_decode h
  have hlength' := length_of_decode h'
  obtain ⟨hid, hschema, hclean, -⟩ := (decode_eq_ok_iff hs hlength).1 h
  obtain ⟨hid', hschema', hclean', -⟩ := (decode_eq_ok_iff hs hlength').1 h'
  have hslots : p.slots = q.slots := by
    apply List.ext_getElem?
    intro slot
    have hrow := congrArg (·[slot]?) hrows
    simp only [rows, List.getElem?_map] at hrow
    cases hentry : p.slots[slot]? with
    | none =>
      rw [hentry] at hrow
      exact (Option.map_eq_none_iff.1 hrow.symm).symm
    | some entry =>
      rw [hentry] at hrow
      obtain ⟨entry', hentry', hsame⟩ := Option.map_eq_some_iff.1 hrow.symm
      rw [hentry']
      cases entry with
      | none => rw [Option.map_eq_none_iff.1 hsame]
      | some t =>
        obtain ⟨t', rfl, hvalues⟩ := Option.map_eq_some_iff.1 hsame
        obtain ⟨ht, hplace⟩ := stored_of_decode hs hlength h hentry
        obtain ⟨ht', hplace'⟩ := stored_of_decode hs hlength' h' hentry'
        obtain ⟨schema, values, recordId, _⟩ := t
        obtain ⟨schema', values', recordId', _⟩ := t'
        congr 2
        rw [Tuple.mk.injEq]
        exact ⟨ht.trans ht'.symm, hvalues.symm, hplace.trans hplace'.symm⟩
  obtain ⟨_, _, _, _, _⟩ := p
  obtain ⟨_, _, _, _, _⟩ := q
  rw [HeapPage.mk.injEq]
  exact ⟨hid.trans hid'.symm, hschema.trans hschema'.symm, hheader, hslots, hclean.trans hclean'.symm⟩

theorem encodeSlot_of_readEntry (id : PageId) {slot : Nat} {entry : Option Tuple}
    (h : readEntry id s slot (recordAt s bytes slot) (Bitmap.test bytes slot) = some entry) :
    encodeSlot s.width entry = canonicalSlot s bytes slot := by
  rw [canonicalSlot]
  cases hbit : Bitmap.test bytes slot with
  | false =>
    rw [hbit, readEntry] at h
    obtain rfl := Option.some.inj h
    rfl
  | true =>
    rw [hbit, readEntry, Option.map_eq_some_iff] at h
    obtain ⟨⟨t, rest⟩, hread, rfl⟩ := h
    have hencode : t.encode = Record.canonical s.columns (recordAt s bytes slot) := Tuple.encode_of_decode hread
    exact hencode

theorem block_bytes_of_decode (hs : s.checkStorable = .ok ()) (h : decode id s bytes = .ok p) :
    p.block.bytes = canonicalBlock s bytes := by
  have hlength := length_of_decode h
  obtain ⟨hp, -⟩ := decode_wellFormed h
  obtain ⟨-, rfl, -, hheader, hslots, hread⟩ := (decode_eq_ok_iff hs hlength).1 h
  have hwritten : p.slots.map (encodeSlot p.schema.width) =
      (List.range (slotsPerPage p.schema.width)).map (canonicalSlot p.schema bytes) := by
    apply List.ext_getElem
    · rw [List.length_map, List.length_map, List.length_range, hslots]
    · intro slot hslot _
      rw [List.length_map] at hslot
      rw [List.getElem_map, List.getElem_map, List.getElem_range]
      apply encodeSlot_of_readEntry id
      rw [hread slot (hslots ▸ hslot), List.getElem?_eq_getElem hslot]
  have hpadding : pageSize - p.encode.length = (paddingOf p.schema bytes).length := by
    rw [hp.length_encode, paddingOf, List.length_drop, hlength, numSlots, hslots]
  rw [hp.block_bytes, hpadding, encode, canonicalBlock, hheader, List.flatMap_def, List.flatMap_def, hwritten]

/-! ### Blocks in canonical form -/

theorem flatMap_take_drop (width n : Nat) (bytes : List UInt8) :
    (List.range n).flatMap (fun i => (bytes.drop (i * width)).take width) = bytes.take (n * width) := by
  induction n with
  | zero => simp
  | succ n ih =>
    rw [List.range_succ, List.flatMap_append, ih, List.flatMap_singleton, Nat.add_mul, Nat.one_mul, List.take_add]

/-- A block is its bitmap, its slots and its padding. -/
theorem bytes_eq (s : Schema) (bytes : List UInt8) :
    bytes = bytes.take (headerSize (slotsPerPage s.width))
      ++ (List.range (slotsPerPage s.width)).flatMap (recordAt s bytes) ++ paddingOf s bytes := by
  have hrecords : recordAt s bytes =
      fun slot => ((bytes.drop (headerSize (slotsPerPage s.width))).drop (slot * s.width)).take s.width :=
    funext fun slot => (recordAt_eq slot).symm
  rw [hrecords, flatMap_take_drop, paddingOf, slotOffset, ← List.take_add, List.take_append_drop]

theorem isRecord_recordAt (h : IsPage s bytes) {slot : Nat} (hslot : slot < slotsPerPage s.width)
    (hbit : Bitmap.test bytes slot = true) : Record.IsRecord s.columns (recordAt s bytes slot) :=
  ⟨Nat.le_of_eq (length_recordAt h.length_eq hslot).symm, h.texts slot hslot hbit⟩

theorem length_canonicalSlot (h : IsPage s bytes) {slot : Nat} (hslot : slot < slotsPerPage s.width) :
    (canonicalSlot s bytes slot).length = s.width := by
  rw [canonicalSlot]
  split
  · next hbit => exact Record.length_canonical (isRecord_recordAt h hslot hbit)
  · exact List.length_replicate

theorem canonicalSlot_eq_iff (h : IsPage s bytes) {slot : Nat} (hslot : slot < slotsPerPage s.width) :
    canonicalSlot s bytes slot = recordAt s bytes slot ↔
      (Bitmap.test bytes slot = true → ∀ i (c : Column), s.columns[i]? = some c →
        c.type.IsCanonical (Record.fieldAt s.columns (recordAt s bytes slot) i c)) ∧
      (Bitmap.test bytes slot = false → ∀ b ∈ recordAt s bytes slot, b = 0) := by
  have hwidth := length_recordAt (s := s) h.length_eq hslot
  cases hbit : Bitmap.test bytes slot with
  | true =>
    have hwhole : (recordAt s bytes slot).take (widthOf s.columns) = recordAt s bytes slot :=
      List.take_of_length_le (Nat.le_of_eq hwidth)
    have hform := Record.canonical_eq_take_iff (isRecord_recordAt h hslot hbit)
    rw [hwhole] at hform
    simp [canonicalSlot, hbit, hform]
  | false =>
    have hzero : List.replicate s.width 0 = recordAt s bytes slot ↔ ∀ b ∈ recordAt s bytes slot, b = 0 := by
      rw [eq_comm, List.eq_replicate_iff, and_iff_right hwidth]
    simp [canonicalSlot, hbit, hzero]

/-- Slots of one width are the same one after the other if each of them is the same. -/
theorem flatMap_canonicalSlot_eq_iff (h : IsPage s bytes) :
    (List.range (slotsPerPage s.width)).flatMap (canonicalSlot s bytes) =
        (List.range (slotsPerPage s.width)).flatMap (recordAt s bytes) ↔
      ∀ slot < slotsPerPage s.width, canonicalSlot s bytes slot = recordAt s bytes slot := by
  constructor
  · intro heq slot hslot
    have hplace : slot < (List.range (slotsPerPage s.width)).length := by rwa [List.length_range]
    have hwritten : ∀ i ∈ List.range (slotsPerPage s.width), (canonicalSlot s bytes i).length = s.width :=
      fun i hi => length_canonicalSlot h (List.mem_range.1 hi)
    have hread : ∀ i ∈ List.range (slotsPerPage s.width), (recordAt s bytes i).length = s.width :=
      fun i hi => length_recordAt h.length_eq (List.mem_range.1 hi)
    have hsame := take_drop_flatMap hwritten [] hplace
    rw [heq, take_drop_flatMap hread [] hplace, List.getElem_range] at hsame
    exact hsame.symm
  · intro hall
    exact List.flatMap_congr fun slot hslot => hall slot (List.mem_range.1 hslot)

theorem canonicalBlock_eq_iff (h : IsPage s bytes) : canonicalBlock s bytes = bytes ↔ IsCanonical s bytes := by
  have hpadding : List.replicate (paddingOf s bytes).length 0 = paddingOf s bytes ↔
      ∀ b ∈ paddingOf s bytes, b = 0 := by
    rw [eq_comm, List.eq_replicate_iff, and_iff_right rfl]
  have hparts : canonicalBlock s bytes = bytes ↔
      (List.range (slotsPerPage s.width)).flatMap (canonicalSlot s bytes) =
          (List.range (slotsPerPage s.width)).flatMap (recordAt s bytes) ∧
        List.replicate (paddingOf s bytes).length 0 = paddingOf s bytes := by
    conv_lhs => rhs; rw [bytes_eq s bytes]
    rw [canonicalBlock]
    constructor
    · intro heq
      obtain ⟨hfront, hback⟩ := List.append_inj' heq List.length_replicate
      exact ⟨List.append_cancel_left hfront, hback⟩
    · rintro ⟨hslots, hback⟩
      rw [hslots, hback]
  rw [hparts, flatMap_canonicalSlot_eq_iff h, hpadding]
  constructor
  · rintro ⟨hslots, hback⟩
    exact ⟨fun slot hslot => ((canonicalSlot_eq_iff h hslot).1 (hslots slot hslot)).1,
      fun slot hslot => ((canonicalSlot_eq_iff h hslot).1 (hslots slot hslot)).2, hback⟩
  · rintro ⟨hrecords, hfree, hback⟩
    exact ⟨fun slot hslot => (canonicalSlot_eq_iff h hslot).2 ⟨hrecords slot hslot, hfree slot hslot⟩, hback⟩

/-- **Which byte strings are pages, and what becomes of them.** For a schema that can be stored, reading takes
no byte that is not there. It reads the byte strings that are pages and refuses all others as corrupt. What it
has read is written as the string's canonical form: the bitmap is kept, records in use have booleans that are
zero or one and zeros behind each text, and the rest is zeros. That form is read as the same page and written
as it is, and only a string in that form is written as it was. -/
theorem page_grammar (id : PageId) (s : Schema) (bytes : List UInt8) (hcolumns : s.columns ≠ [])
    (hslots : 0 < slotsPerPage s.width) :
    (readChecked id s bytes).run = some (decode id s bytes) ∧
      ((∃ p, decode id s bytes = .ok p) ↔ IsPage s bytes) ∧
      (¬ IsPage s bytes → decode id s bytes = .error (.corruptPage id)) ∧
      ∀ p, decode id s bytes = .ok p →
        p.block.bytes = canonicalBlock s bytes ∧ decode id s p.block.bytes = .ok p ∧
          canonicalBlock s p.block.bytes = p.block.bytes ∧ (p.block.bytes = bytes ↔ IsCanonical s bytes) := by
  have hs := checkStorable_eq_ok_iff.2 ⟨hcolumns, hslots⟩
  have hpages : (∃ p, decode id s bytes = .ok p) ↔ IsPage s bytes := exists_decode_eq_ok_iff id hs
  refine ⟨run_readChecked id s bytes, hpages, fun h => decode_eq_error id hs (mt hpages.1 h), fun p h => ?_⟩
  have hblock := block_bytes_of_decode hs h
  obtain ⟨hp, rfl, rfl, -⟩ := decode_wellFormed h
  obtain ⟨q, hread, hrows, hheader⟩ := hp.decode_block
  obtain rfl := eq_of_decode hs hread h hheader hrows
  exact ⟨hblock, hread, (block_bytes_of_decode hs hread).symm,
    hblock ▸ canonicalBlock_eq_iff (hpages.1 ⟨_, h⟩)⟩

/-- A boolean and a text of at most 1000 bytes: four slots to a page. -/
def notes : Schema := ⟨[⟨"b", .boolean⟩, ⟨"c", .char 1000⟩]⟩

/-- The first slot is in use, with a true byte other than one and a text of one character; a bit past the last
slot is set, and all other bytes are of no use. -/
def scrap : List UInt8 := [0x11, 7, 0, 0, 0, 2, 0xc3, 0xa9] ++ List.replicate 4088 0xff

/-- The scrap is read and written in its canonical form; with a length that cuts the character, it is refused. -/
theorem page_grammar_of_scrap :
    (notes.columns ≠ [] ∧ 0 < slotsPerPage notes.width) ∧
      (∃ p, decode ⟨3, 7⟩ notes scrap = .ok p ∧
        p.rows = [some [.boolean true, .string "é"], none, none, none] ∧
        p.block.bytes.take 8 = [0x11, 1, 0, 0, 0, 2, 0xc3, 0xa9] ∧ (p.block.bytes.drop 8).all (· == 0) = true ∧
        decode ⟨3, 7⟩ notes p.block.bytes = .ok p ∧ ¬ IsCanonical notes scrap) ∧
      ¬ IsPage notes (scrap.set 5 1) ∧ decode ⟨3, 7⟩ notes (scrap.set 5 1) = .error (.corruptPage ⟨3, 7⟩) := by
  have hcolumns : notes.columns ≠ [] := by decide
  have hslots : 0 < slotsPerPage notes.width := by decide
  obtain ⟨-, -, -, hwritten⟩ := page_grammar ⟨3, 7⟩ notes scrap hcolumns hslots
  obtain ⟨-, hpage, hrefused, -⟩ := page_grammar ⟨3, 7⟩ notes (scrap.set 5 1) hcolumns hslots
  have hrows : (decode ⟨3, 7⟩ notes scrap).map rows =
      .ok [some [.boolean true, .string "é"], none, none, none] := by decide +kernel
  have hcut : (decode ⟨3, 7⟩ notes (scrap.set 5 1)).map rows = .error (.corruptPage ⟨3, 7⟩) := by decide +kernel
  refine ⟨⟨hcolumns, hslots⟩, ?_, ?_⟩
  · cases h : decode ⟨3, 7⟩ notes scrap with
    | error e =>
      rw [h] at hrows
      simp [Except.map] at hrows
    | ok p =>
      rw [h] at hrows
      obtain ⟨hblock, hread, -, hsame⟩ := hwritten p h
      have hfront : p.block.bytes.take 8 = [0x11, 1, 0, 0, 0, 2, 0xc3, 0xa9] := by
        rw [hblock]
        decide +kernel
      have hback : (p.block.bytes.drop 8).all (· == 0) = true := by
        rw [hblock]
        decide +kernel
      have hdiffer : p.block.bytes ≠ scrap := fun heq => absurd (heq ▸ hfront) (by decide)
      exact ⟨p, rfl, Except.ok.inj hrows, hfront, hback, hread, mt hsame.2 hdiffer⟩
  · have hnot : ¬ IsPage notes (scrap.set 5 1) := by
      intro h
      obtain ⟨p, hp⟩ := hpage.2 h
      rw [hp] at hcut
      simp [Except.map] at hcut
    exact ⟨hnot, hrefused hnot⟩

end HeapPage

end HeapStore
