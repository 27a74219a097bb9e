import HeapStore.Page.Basic
import HeapStore.Proofs.Record.RoundTrip

/-!
# Well-formed pages

A page keeps its occupancy twice, as the bits of its header and in its slots. `HeapPage.WellFormed` says
that the two agree, that both have the size that the schema gives them, and that every stored tuple has
the page's column types and the record id of its slot.

* The bitmap (`Bitmap.test_write`): writing one bit changes that bit only.
* The layout (`headerSize_add_le`): header and slots fit into a page; a slot's number fits into a record
  id (`slotsPerPage_lt`).
* An insert fills one free slot, a delete frees one slot in use, and both leave the page well-formed
  (`WellFormed.insert`, `WellFormed.delete`). `rows` is what a page stores: the values of each slot.
-/

namespace HeapStore

/-! ### One bit of a bitmap -/

namespace Bitmap

theorem testBit_mask (i : Nat) {k : Nat} (hk : k < 8) :
    (mask i).toNat.testBit k = decide (k = i % 8) := by
  have table : ∀ r < 8, ∀ k < 8, ((1 : UInt8) <<< UInt8.ofNat r).toNat.testBit k = decide (k = r) := by
    decide
  exact table (i % 8) (Nat.mod_lt _ (by omega)) k hk

theorem testBit_not_mask (i : Nat) {k : Nat} (hk : k < 8) :
    (~~~mask i).toNat.testBit k = decide (k ≠ i % 8) := by
  have table : ∀ r < 8, ∀ k < 8,
      (~~~((1 : UInt8) <<< UInt8.ofNat r)).toNat.testBit k = decide (k ≠ r) := by
    decide
  exact table (i % 8) (Nat.mod_lt _ (by omega)) k hk

theorem test_write {bytes : List UInt8} {i : Nat} (hi : i / 8 < bytes.length) (value : Bool) (j : Nat) :
    test (write bytes i value) j = if j = i then value else test bytes j := by
  have hk : j % 8 < 8 := Nat.mod_lt _ (by omega)
  unfold test write
  rw [List.getD_eq_getElem?_getD, List.getElem?_modify, List.getD_eq_getElem?_getD]
  by_cases hbyte : i / 8 = j / 8
  · rw [List.getElem?_eq_getElem (hbyte ▸ hi)]
    have hij : j = i ↔ j % 8 = i % 8 := by omega
    cases value <;>
      simp only [hbyte, if_true, Option.map_eq_map, Option.map_some, Option.getD_some, UInt8.toNat_or,
        UInt8.toNat_and, Nat.testBit_or, Nat.testBit_and, testBit_mask i hk, testBit_not_mask i hk, hij,
        Bool.false_eq_true, if_false] <;>
      by_cases h : j % 8 = i % 8 <;> simp [h]
  · have hij : j ≠ i := fun h => hbyte (by rw [h])
    simp [hbyte, hij]

theorem getElem?_bits {bytes : List UInt8} {i : Nat} (hi : i < 8 * bytes.length) :
    (bits bytes)[i]? = some (test bytes i) := by
  have hlt : i < (bits bytes).length := by rwa [length_bits]
  rw [List.getElem?_eq_getElem hlt, ← getD_bits, List.getD_eq_getElem?_getD,
    List.getElem?_eq_getElem hlt, Option.getD_some]

end Bitmap

/-! ### Layout -/

/-- A slot costs the bytes of a record and one bit. Rounding the bits up to whole bytes makes no difference, since
what the records leave of a page is whole bytes as well. -/
theorem headerSize_add_le_iff (slots width : Nat) :
    headerSize slots + slots * width ≤ pageSize ↔ slots * (width * 8 + 1) ≤ pageSize * 8 := by
  have hbits : slots * (width * 8 + 1) = 8 * (slots * width) + slots := by
    rw [Nat.mul_add, Nat.mul_one, ← Nat.mul_assoc, Nat.mul_comm _ 8]
  rw [hbits]
  unfold headerSize pageSize
  omega

theorem le_slotsPerPage_iff (slots width : Nat) :
    slots ≤ slotsPerPage width ↔ headerSize slots + slots * width ≤ pageSize := by
  rw [slotsPerPage, headerSize_add_le_iff]
  exact Nat.le_div_iff_mul_le (Nat.succ_pos _)

theorem headerSize_add_le (width : Nat) :
    headerSize (slotsPerPage width) + slotsPerPage width * width ≤ pageSize :=
  (le_slotsPerPage_iff _ width).1 (Nat.le_refl _)

theorem slotsPerPage_lt (width : Nat) : slotsPerPage width < 65536 := by
  have h : slotsPerPage width ≤ 4096 * 8 := Nat.div_le_self _ _
  omega

theorem slotsPerPage_le_bits (width : Nat) : slotsPerPage width ≤ 8 * headerSize (slotsPerPage width) := by
  unfold headerSize
  omega

/-! ### Well-formed pages -/

namespace HeapPage

/-- What a page stores: the values in each slot that is in use. -/
def rows (p : HeapPage) : List (Option (List Value)) := p.slots.map (Option.map (·.values))

structure WellFormed (p : HeapPage) : Prop where
  storable : p.schema.checkStorable = .ok ()
  length_header : p.header.length = headerSize (slotsPerPage p.schema.width)
  length_slots : p.slots.length = slotsPerPage p.schema.width
  /-- The header and the slots agree on which slots are in use. -/
  test_header : ∀ slot < p.slots.length, Bitmap.test p.header slot = (p.tuple? slot).isSome
  /-- A stored tuple is one of the table and knows its place. -/
  stored : ∀ slot t, p.tuple? slot = some t →
    t.schema.sameTypes p.schema = true ∧ t.recordId = some (recordId p.id slot)

variable {p : HeapPage}

theorem tuple?_set (i slot : Nat) (entry : Option Tuple) (hi : i < p.slots.length) :
    ({ p with slots := p.slots.set i entry } : HeapPage).tuple? slot =
      if slot = i then entry else p.tuple? slot := by
  unfold tuple?
  rw [List.getElem?_set]
  by_cases h : i = slot
  · subst h
    simp [hi]
  · simp [h, Ne.symm h]

theorem getElem?_rows (slot : Nat) (h : slot < p.slots.length) :
    p.rows[slot]? = some ((p.tuple? slot).map (·.values)) := by
  unfold rows tuple?
  rw [List.getElem?_map, List.getElem?_eq_getElem h]
  rfl

theorem rows_set (i : Nat) (entry : Option Tuple) :
    ({ p with slots := p.slots.set i entry } : HeapPage).rows = p.rows.set i (entry.map (·.values)) := by
  unfold rows
  rw [List.map_set]

/-- The bits of the header are the occupancy of the slots. -/
theorem occupancy_eq (hp : p.WellFormed) : p.occupancy = p.slots.map (·.isSome) := by
  have hbits : p.slots.length ≤ 8 * p.header.length := by
    rw [hp.length_slots, hp.length_header]
    exact slotsPerPage_le_bits _
  apply List.ext_getElem?
  intro i
  by_cases hi : i < p.slots.length
  · rw [occupancy, numSlots, List.getElem?_take_of_lt hi, Bitmap.getElem?_bits (by omega),
      hp.test_header i hi, List.getElem?_map, tuple?, List.getElem?_eq_getElem hi]
    rfl
  · rw [List.getElem?_eq_none, List.getElem?_eq_none]
    · simp; omega
    · simp [occupancy, numSlots]; omega

theorem test_of_firstFree? {slot : Nat} (hp : p.WellFormed) (h : p.firstFree? = some slot) :
    slot < p.slots.length ∧ p.tuple? slot = none := by
  unfold firstFree? at h
  rw [occupancy_eq hp, List.findIdx?_eq_some_iff_getElem] at h
  obtain ⟨hlt, hfree, -⟩ := h
  have hslot : slot < p.slots.length := by simpa using hlt
  refine ⟨hslot, ?_⟩
  rw [List.getElem_map] at hfree
  rw [tuple?, List.getElem?_eq_getElem hslot]
  simpa using hfree

theorem slot_div_lt (hp : p.WellFormed) {slot : Nat} (h : slot < p.slots.length) :
    slot / 8 < p.header.length := by
  rw [hp.length_header, headerSize]
  rw [hp.length_slots] at h
  omega

theorem toNat_recordId {slot : Nat} (h : slot < 65536) (id : PageId) :
    (recordId id slot).slot.toNat = slot := by
  rw [recordId, UInt16.toNat_ofNat', Nat.mod_eq_of_lt h]

/-- Filling or freeing a slot together with its bit keeps a page well-formed. -/
theorem WellFormed.write (hp : p.WellFormed) {slot : Nat} (hslot : slot < p.slots.length)
    {entry : Option Tuple}
    (hentry : ∀ t, entry = some t →
      t.schema.sameTypes p.schema = true ∧ t.recordId = some (recordId p.id slot)) :
    ({ p with
      header := Bitmap.write p.header slot entry.isSome
      slots := p.slots.set slot entry } : HeapPage).WellFormed where
  storable := hp.storable
  length_header := (Bitmap.length_write ..).trans hp.length_header
  length_slots := (List.length_set ..).trans hp.length_slots
  test_header i hi := by
    rw [List.length_set] at hi
    show Bitmap.test (Bitmap.write p.header slot entry.isSome) i =
      (HeapPage.tuple? { p with slots := p.slots.set slot entry } i).isSome
    rw [Bitmap.test_write (slot_div_lt hp hslot), tuple?_set _ _ _ hslot]
    split
    · rfl
    · exact hp.test_header i hi
  stored i t ht := by
    change HeapPage.tuple? { p with slots := p.slots.set slot entry } i = some t at ht
    rw [tuple?_set _ _ _ hslot] at ht
    split at ht
    · next h => exact h ▸ hentry t ht
    · exact hp.stored i t ht

theorem WellFormed.insert (hp : p.WellFormed) {t stored : Tuple} {p' : HeapPage}
    (h : p.insert t = .ok (stored, p')) :
    ∃ slot < p.slots.length, stored = t.withRecordId (some (recordId p.id slot)) ∧
      p.rows[slot]? = some none ∧ p'.rows = p.rows.set slot (some t.values) ∧
      p'.WellFormed ∧ p'.id = p.id ∧ p'.schema = p.schema := by
  unfold HeapPage.insert at h
  split at h
  · simp at h
  · next htypes =>
    split at h
    · simp at h
    · next slot hfree =>
      obtain ⟨rfl, rfl⟩ := Prod.mk.inj (Except.ok.inj h)
      obtain ⟨hslot, hnone⟩ := test_of_firstFree? hp hfree
      refine ⟨slot, hslot, rfl, ?_, rows_set slot _, ?_, rfl, rfl⟩
      · rw [getElem?_rows slot hslot, hnone]
        rfl
      · have hentry : ∀ s, some (t.withRecordId (some (recordId p.id slot))) = some s →
            s.schema.sameTypes p.schema = true ∧ s.recordId = some (recordId p.id slot) := by
          rintro _ ⟨⟩
          have hsame : t.schema.sameTypes p.schema = true := by simpa using htypes
          exact ⟨hsame, rfl⟩
        exact hp.write hslot hentry

theorem WellFormed.delete (hp : p.WellFormed) {r : Option RecordId} {p' : HeapPage}
    (h : p.delete r = .ok p') :
    ∃ rid values, r = some rid ∧ rid.page = p.id ∧ p.rows[rid.slot.toNat]? = some (some values) ∧
      p'.rows = p.rows.set rid.slot.toNat none ∧ p'.WellFormed ∧ p'.id = p.id ∧ p'.schema = p.schema := by
  unfold HeapPage.delete at h
  split at h
  · simp at h
  · next rid =>
    split at h
    · simp at h
    · next hpage =>
      dsimp only at h
      split at h
      · simp at h
      · split at h
        · simp at h
        · next hnum hused =>
          obtain rfl := Except.ok.inj h
          have hslot : rid.slot.toNat < p.slots.length := by simpa [numSlots] using hnum
          have htest : Bitmap.test p.header rid.slot.toNat = true := by
            simpa [isUsed, numSlots, hslot] using hused
          rw [hp.test_header _ hslot] at htest
          obtain ⟨t, ht⟩ := Option.isSome_iff_exists.1 htest
          refine ⟨rid, t.values, rfl, by simpa using hpage, ?_, rows_set _ none, ?_, rfl, rfl⟩
          · rw [getElem?_rows _ hslot, ht]
            rfl
          · exact hp.write hslot fun t (ht : none = some t) => by simp at ht

theorem WellFormed.markDirty (hp : p.WellFormed) (txn : TxnId) : (p.markDirty txn).WellFormed :=
  ⟨hp.storable, hp.length_header, hp.length_slots, hp.test_header, hp.stored⟩

theorem WellFormed.markClean (hp : p.WellFormed) : p.markClean.WellFormed :=
  ⟨hp.storable, hp.length_header, hp.length_slots, hp.test_header, hp.stored⟩

@[simp] theorem rows_markDirty (txn : TxnId) : (p.markDirty txn).rows = p.rows := rfl

@[simp] theorem rows_markClean : p.markClean.rows = p.rows := rfl

end HeapPage

end HeapStore
