import HeapStore.Proofs.Page.Changes
import Mathlib.Order.Bounds.Basic

/-!
# A page is a partial map

What a page answers about its slots, be it from the bits of its header or from the slots themselves, is said by the
tuples in them (`HeapPage.Mapped`). An insert fails for a tuple of other column types, or else if no slot is free;
otherwise the tuple goes to the lowest free slot (`WellFormed.insert_eq_error_iff`, `WellFormed.insert_eq_ok`). A delete
succeeds if the record id names a slot of this page that is in use (`WellFormed.exists_delete_iff`). A change that
succeeds sets one slot together with its bit (`HeapPage.Sets`), so bits past the last slot stay as they were read.
-/

namespace HeapStore.HeapPage

variable {p p' : HeapPage} {id : PageId} {s : Schema} {t stored : Tuple} {slot : Nat}

/-- Is this a slot of the page that holds no tuple? -/
def IsFree (p : HeapPage) (slot : Nat) : Prop := slot < p.numSlots ∧ p.tuple? slot = none

theorem isFree_iff_getElem? : p.IsFree slot ↔ p.slots[slot]? = some none := by
  rw [IsFree, tuple?, Option.join_eq_none_iff, List.getElem?_eq_none_iff, ← Nat.not_lt]
  constructor
  · rintro ⟨hlt, hge | hnone⟩
    · exact absurd hlt hge
    · exact hnone
  · exact fun hnone => ⟨(List.getElem?_eq_some_iff.1 hnone).1, Or.inr hnone⟩

theorem not_isFree_iff (h : slot < p.numSlots) : ¬ p.IsFree slot ↔ (p.tuple? slot).isSome = true := by
  rw [IsFree, and_iff_right h, Option.isSome_iff_ne_none]

theorem WellFormed.firstFree?_eq_some_iff (hp : p.WellFormed) :
    p.firstFree? = some slot ↔ IsLeast {i | p.IsFree i} slot := by
  rw [firstFree?, occupancy_eq hp, List.findIdx?_map, List.findIdx?_eq_some_iff_getElem]
  simp only [Function.comp, Bool.not_eq_true', Option.isSome_eq_false_iff, Option.isNone_iff_eq_none]
  constructor
  · rintro ⟨hlt, hfree, hbefore⟩
    refine ⟨isFree_iff_getElem?.2 (List.getElem?_eq_some_iff.2 ⟨hlt, hfree⟩), fun i hi => ?_⟩
    by_contra hless
    obtain ⟨hi', hnone⟩ := List.getElem?_eq_some_iff.1 (isFree_iff_getElem?.1 hi)
    have hused := hbefore i (Nat.not_le.1 hless)
    rw [hnone] at hused
    simp at hused
  · rintro ⟨hfree, hleast⟩
    obtain ⟨hlt, hnone⟩ := List.getElem?_eq_some_iff.1 (isFree_iff_getElem?.1 hfree)
    refine ⟨hlt, hnone, fun i hi => ?_⟩
    by_contra hused
    have hi' : p.IsFree i := isFree_iff_getElem?.2 (List.getElem?_eq_some_iff.2 ⟨by omega, by simpa using hused⟩)
    exact absurd (hleast hi') (Nat.not_le.2 hi)

theorem WellFormed.firstFree?_eq_none_iff (hp : p.WellFormed) : p.firstFree? = none ↔ ∀ i, ¬ p.IsFree i := by
  rw [firstFree?, occupancy_eq hp, List.findIdx?_map, List.findIdx?_eq_none_iff]
  simp only [Function.comp, Bool.not_eq_false', isFree_iff_getElem?]
  constructor
  · intro hused i hfree
    simpa using hused none (List.mem_of_getElem? hfree)
  · intro hnone entry hmem
    obtain ⟨i, hi⟩ := List.mem_iff_getElem?.1 hmem
    cases entry with
    | none => exact absurd hi (hnone i)
    | some t => rfl

theorem isFree_iff_getElem?_rows : p.IsFree slot ↔ p.rows[slot]? = some none := by
  rw [isFree_iff_getElem?, rows, List.getElem?_map]
  simp [Option.map_eq_some_iff]

theorem WellFormed.numFree_pos_iff (hp : p.WellFormed) : 0 < p.numFree ↔ ∃ i, p.IsFree i := by
  rw [numFree, occupancy_eq hp, List.count_pos_iff]
  simp only [isFree_iff_getElem?, ← List.mem_iff_getElem?, List.mem_map, Option.isSome_eq_false_iff,
    Option.isNone_iff_eq_none, exists_eq_right]

/-! ### Observations -/

/-- What the page answers about its slots: all of it is said by the tuples in them. -/
structure Mapped (p : HeapPage) : Prop where
  bit : ∀ i < p.numSlots, Bitmap.test p.header i = (p.tuple? i).isSome
  used : ∀ i, p.isUsed i = (p.tuple? i).isSome
  /-- A stored tuple knows its place. -/
  located : ∀ i t, p.tuple? i = some t → ∃ r, t.recordId = some r ∧ r.page = p.id ∧ r.slot.toNat = i
  count : p.numFree + p.tuples.length = p.numSlots
  next : ∀ start slot, p.nextUsed? start = some slot ↔ IsLeast {i | start ≤ i ∧ (p.tuple? i).isSome = true} slot
  atEnd : ∀ start, p.nextUsed? start = none ↔ ∀ i, start ≤ i → p.tuple? i = none

/-- Each slot is free or gives one tuple. -/
theorem count_add_length (slots : List (Option Tuple)) :
    (slots.map (·.isSome)).count false + (slots.filterMap (·)).length = slots.length := by
  induction slots with
  | nil => rfl
  | cons entry slots ih => cases entry with
    | none =>
      simp only [List.map_cons, Option.isSome_none, List.count_cons_self, List.filterMap_cons, List.length_cons]
      omega
    | some t =>
      simp only [List.map_cons, Option.isSome_some, List.count_cons_of_ne, List.filterMap_cons, List.length_cons,
        ne_eq, Bool.true_eq_false, not_false_eq_true]
      omega

theorem WellFormed.nextUsed?_eq_some_iff (hp : p.WellFormed) (start : Nat) :
    p.nextUsed? start = some slot ↔ IsLeast {i | start ≤ i ∧ (p.tuple? i).isSome = true} slot := by
  have hfound : ∀ found, p.nextUsed? start = some found →
      IsLeast {i | start ≤ i ∧ (p.tuple? i).isSome = true} found := by
    intro found h
    obtain ⟨hle, ⟨t, ht⟩, hbefore⟩ := hp.of_nextUsed?_eq_some h
    refine ⟨⟨hle, by rw [ht, Option.isSome_some]⟩, fun i ⟨hi, hused⟩ => ?_⟩
    by_contra hless
    rw [hbefore i hi (Nat.not_le.1 hless)] at hused
    simp at hused
  refine ⟨hfound slot, fun hleast => ?_⟩
  cases h : p.nextUsed? start with
  | none =>
    obtain ⟨⟨hle, hused⟩, -⟩ := hleast
    rw [hp.of_nextUsed?_eq_none h hle] at hused
    simp at hused
  | some found => rw [(hfound found h).unique hleast]

theorem WellFormed.nextUsed?_eq_none_iff (hp : p.WellFormed) (start : Nat) :
    p.nextUsed? start = none ↔ ∀ i, start ≤ i → p.tuple? i = none := by
  refine ⟨fun h i => hp.of_nextUsed?_eq_none h, fun hnone => ?_⟩
  cases h : p.nextUsed? start with
  | none => rfl
  | some found =>
    obtain ⟨hle, ⟨t, ht⟩, -⟩ := hp.of_nextUsed?_eq_some h
    rw [hnone found hle] at ht
    simp at ht

theorem WellFormed.mapped (hp : p.WellFormed) : p.Mapped where
  bit := hp.test_header
  used := hp.isUsed_eq
  located i t ht := by
    have hlt : i < slotsPerPage p.schema.width := hp.length_slots ▸ lt_of_tuple?_eq_some ht
    exact ⟨recordId p.id i, (hp.stored i t ht).2, rfl, toNat_recordId (Nat.lt_trans hlt (slotsPerPage_lt _)) p.id⟩
  count := by
    rw [numFree, occupancy_eq hp]
    exact count_add_length p.slots
  next start _ := hp.nextUsed?_eq_some_iff start
  atEnd := hp.nextUsed?_eq_none_iff

/-! ### Changes -/

/-- The pages differ in what one slot holds, and in its bit. -/
structure Sets (slot : Nat) (entry : Option Tuple) (p p' : HeapPage) : Prop where
  id : p'.id = p.id
  schema : p'.schema = p.schema
  dirtiedBy : p'.dirtiedBy = p.dirtiedBy
  inside : slot < p.numSlots
  numSlots : p'.numSlots = p.numSlots
  tuples : ∀ i, p'.tuple? i = if i = slot then entry else p.tuple? i
  bits : ∀ i, Bitmap.test p'.header i = if i = slot then entry.isSome else Bitmap.test p.header i

theorem WellFormed.sets_write (hp : p.WellFormed) (hslot : slot < p.slots.length) (entry : Option Tuple) :
    Sets slot entry p
      { p with header := Bitmap.write p.header slot entry.isSome, slots := p.slots.set slot entry } where
  id := rfl
  schema := rfl
  dirtiedBy := rfl
  inside := hslot
  numSlots := List.length_set ..
  tuples i := tuple?_set slot i entry hslot
  bits i := Bitmap.test_write (slot_div_lt hp hslot) entry.isSome i

theorem Sets.test_of_le {entry : Option Tuple} (h : Sets slot entry p p') {i : Nat} (hi : p.numSlots ≤ i) :
    Bitmap.test p'.header i = Bitmap.test p.header i := by
  have hne : i ≠ slot := Nat.ne_of_gt (Nat.lt_of_lt_of_le h.inside hi)
  rw [h.bits, if_neg hne]

/-- An insert is refused for the types of the tuple's columns, or else because no slot is free. -/
theorem WellFormed.insert_eq_error_iff (hp : p.WellFormed) {cause : StorageError} :
    p.insert t = .error cause ↔
      t.schema.sameTypes p.schema = false ∧ cause = .schemaMismatch p.id.table ∨
        t.schema.sameTypes p.schema = true ∧ (∀ i, ¬ p.IsFree i) ∧ cause = .pageFull p.id := by
  rw [← hp.firstFree?_eq_none_iff, HeapPage.insert]
  cases t.schema.sameTypes p.schema with
  | false => simp [eq_comm]
  | true => cases p.firstFree? with
    | none => simp [eq_comm]
    | some slot => simp

theorem WellFormed.insert_eq_ok (hp : p.WellFormed) (h : p.insert t = .ok (stored, p')) :
    t.schema.sameTypes p.schema = true ∧ ∃ slot, IsLeast {i | p.IsFree i} slot ∧
      stored = t.withRecordId (some (recordId p.id slot)) ∧ Sets slot (some stored) p p' := by
  unfold HeapPage.insert at h
  split at h
  · simp at h
  · next htypes =>
    split at h
    · simp at h
    · next slot hfree =>
      obtain ⟨rfl, rfl⟩ := Prod.mk.inj (Except.ok.inj h)
      have hleast := hp.firstFree?_eq_some_iff.1 hfree
      exact ⟨by simpa using htypes, slot, hleast, rfl, hp.sets_write hleast.1.1 (some _)⟩

theorem WellFormed.isLeast_of_insert (hp : p.WellFormed) (h : p.insert t = .ok (stored, p'))
    (hstored : stored = t.withRecordId (some (recordId p.id slot))) (hslot : slot < 65536) :
    IsLeast {i | p.IsFree i} slot := by
  obtain ⟨-, i, hleast, hstored', -⟩ := hp.insert_eq_ok h
  have hinside : i < slotsPerPage p.schema.width := hp.length_slots.symm ▸ hleast.1.1
  have hi : i < 65536 := Nat.lt_trans hinside (slotsPerPage_lt _)
  have hid : recordId p.id slot = recordId p.id i :=
    Option.some.inj (congrArg Tuple.recordId (hstored.symm.trans hstored'))
  rw [← toNat_recordId hslot p.id, hid, toNat_recordId hi]
  exact hleast

theorem WellFormed.delete_eq_ok (hp : p.WellFormed) {r : Option RecordId} (h : p.delete r = .ok p') :
    ∃ rid, r = some rid ∧ rid.page = p.id ∧ (p.tuple? rid.slot.toNat).isSome = true ∧
      Sets rid.slot.toNat none p p' := by
  obtain ⟨rid, values, rfl, hpage, hrow, -⟩ := hp.delete h
  have hslot : rid.slot.toNat < p.numSlots := by
    simpa [rows, numSlots] using (List.getElem?_eq_some_iff.1 hrow).1
  have hused : (p.tuple? rid.slot.toNat).isSome = true := by
    rw [getElem?_rows _ hslot, Option.some.injEq, Option.map_eq_some_iff] at hrow
    obtain ⟨tuple, htuple, -⟩ := hrow
    rw [htuple, Option.isSome_some]
  refine ⟨rid, rfl, hpage, hused, ?_⟩
  have hbit := hp.isUsed_eq rid.slot.toNat
  rw [hused] at hbit
  rw [HeapPage.delete, if_neg (not_not_intro hpage), if_neg (Nat.not_le.2 hslot), hbit] at h
  obtain rfl := Except.ok.inj h
  exact hp.sets_write hslot none

theorem WellFormed.exists_delete_iff (hp : p.WellFormed) {r : Option RecordId} :
    (∃ p', p.delete r = .ok p') ↔
      ∃ rid, r = some rid ∧ rid.page = p.id ∧ (p.tuple? rid.slot.toNat).isSome = true := by
  constructor
  · rintro ⟨p', h⟩
    obtain ⟨rid, hr, hpage, hused, -⟩ := hp.delete_eq_ok h
    exact ⟨rid, hr, hpage, hused⟩
  · rintro ⟨rid, rfl, hpage, hused⟩
    obtain ⟨t, ht⟩ := Option.isSome_iff_exists.1 hused
    have hslot : rid.slot.toNat < p.numSlots := lt_of_tuple?_eq_some ht
    have hbit := hp.isUsed_eq rid.slot.toNat
    rw [hused] at hbit
    rw [HeapPage.delete, if_neg (not_not_intro hpage), if_neg (Nat.not_le.2 hslot), hbit]
    exact ⟨_, rfl⟩

/-- What a change that is tried does: it sets one slot of the page, or nothing. -/
theorem WellFormed.sets_change (hp : p.WellFormed) (c : Change) :
    p.change c = p ∨ ∃ slot entry, Sets slot entry p (p.change c) := by
  cases c with
  | insert t =>
    unfold HeapPage.change
    dsimp only
    split
    · next stored p' h =>
      obtain ⟨-, slot, -, -, hsets⟩ := hp.insert_eq_ok h
      exact Or.inr ⟨slot, some stored, hsets⟩
    · exact Or.inl rfl
  | delete r =>
    unfold HeapPage.change
    dsimp only
    split
    · next p' h =>
      obtain ⟨rid, -, -, -, hsets⟩ := hp.delete_eq_ok h
      exact Or.inr ⟨rid.slot.toNat, none, hsets⟩
    · exact Or.inl rfl

theorem WellFormed.test_changes (hp : p.WellFormed) (changes : List Change) {i : Nat} (hi : p.numSlots ≤ i) :
    Bitmap.test (changes.foldl HeapPage.change p).header i = Bitmap.test p.header i := by
  induction changes generalizing p with
  | nil => rfl
  | cons c changes ih =>
    obtain ⟨hp', -⟩ := hp.change c
    rw [List.foldl_cons]
    obtain hsame | ⟨slot, entry, hsets⟩ := hp.sets_change c
    · rw [hsame]
      exact ih hp hi
    · rw [ih hp' (hsets.numSlots.symm ▸ hi), hsets.test_of_le hi]

/-! ### All of it -/

/-- The caller's tuple once its insert was tried: it learns its record id if it is stored. -/
def givenBack (p : HeapPage) (t : Tuple) : Tuple :=
  match p.insert t with
  | .ok (stored, _) => stored
  | .error _ => t

/-- What an insert comes to. -/
structure InsertSpec (p : HeapPage) (t : Tuple) : Prop where
  mismatch : p.insert t = .error (.schemaMismatch p.id.table) ↔ t.schema.sameTypes p.schema = false
  full : p.insert t = .error (.pageFull p.id) ↔
    t.schema.sameTypes p.schema = true ∧ ∀ i < p.numSlots, (p.tuple? i).isSome = true
  stored : t.schema.sameTypes p.schema = true → ∀ slot, IsLeast {i | p.IsFree i} slot →
    ∃ stored p', p.insert t = .ok (stored, p') ∧ stored = t.withRecordId (some (recordId p.id slot)) ∧
      Sets slot (some stored) p p'
  failed : ∀ cause, p.insert t = .error cause → p.change (.insert t) = p ∧ p.givenBack t = t

/-- What a delete comes to. -/
structure DeleteSpec (p : HeapPage) (r : Option RecordId) : Prop where
  succeeds : (∃ p', p.delete r = .ok p') ↔
    ∃ rid, r = some rid ∧ rid.page = p.id ∧ (p.tuple? rid.slot.toNat).isSome = true
  frees : ∀ p', p.delete r = .ok p' → ∃ rid, r = some rid ∧ Sets rid.slot.toNat none p p'
  failed : ∀ cause, p.delete r = .error cause → p.change (.delete r) = p

theorem WellFormed.insertSpec (hp : p.WellFormed) (t : Tuple) : p.InsertSpec t where
  mismatch := by simp [hp.insert_eq_error_iff]
  full := by
    have hfull : (∀ i, ¬ p.IsFree i) ↔ ∀ i < p.numSlots, (p.tuple? i).isSome = true :=
      ⟨fun h i hi => (not_isFree_iff hi).1 (h i), fun h i hi => (not_isFree_iff hi.1).2 (h i hi.1) hi⟩
    simp [hp.insert_eq_error_iff, hfull]
  stored htypes slot hleast := by
    cases h : p.insert t with
    | error cause =>
      obtain ⟨hdiffer, -⟩ | ⟨-, hfull, -⟩ := hp.insert_eq_error_iff.1 h
      · rw [htypes] at hdiffer
        simp at hdiffer
      · exact absurd hleast.1 (hfull slot)
    | ok result =>
      obtain ⟨-, slot', hleast', hstored, hsets⟩ := hp.insert_eq_ok h
      rw [hleast.unique hleast']
      exact ⟨_, _, rfl, hstored, hsets⟩
  failed cause h := by
    rw [HeapPage.change, givenBack, h]
    exact ⟨rfl, rfl⟩

theorem WellFormed.deleteSpec (hp : p.WellFormed) (r : Option RecordId) : p.DeleteSpec r where
  succeeds := hp.exists_delete_iff
  frees p' h := by
    obtain ⟨rid, hr, -, -, hsets⟩ := hp.delete_eq_ok h
    exact ⟨rid, hr, hsets⟩
  failed cause h := by rw [HeapPage.change, h]

/-- **A page is a partial map from slots to tuples.** Whatever a page was read from and whatever changes were tried on
it, its header and its slots say the same; an insert fills the lowest free slot, a delete frees the slot of the record
id, and no change reaches another slot or the bits past the last one. -/
theorem Reached.partial_map (h : Reached id s p) :
    p.id = id ∧ p.schema = s ∧ p.Mapped ∧ (∀ t, p.InsertSpec t) ∧ (∀ r, p.DeleteSpec r) ∧
      ∀ (changes : List Change) (i : Nat), p.numSlots ≤ i →
        Bitmap.test (changes.foldl HeapPage.change p).header i = Bitmap.test p.header i := by
  obtain ⟨hp, hid, hschema⟩ := h.wellFormed
  exact ⟨hid, hschema, hp.mapped, hp.insertSpec, hp.deleteSpec, fun changes _ hi => hp.test_changes changes hi⟩

/-- A page of four free slots that was read with two bits set past the last slot. -/
def strayBits : HeapPage := ⟨⟨3, 7⟩, readings, [0xa0], List.replicate 4 none, none⟩

theorem decode_strayBits :
    decode ⟨3, 7⟩ readings (0xa0 :: List.replicate 4095 0) = .ok strayBits := by
  decide +kernel

/-- Two inserts and a delete: the next tuple goes to the slot that was freed, and the bits past the last slot are set
as before. -/
theorem partial_map_of_strayBits :
    ∃ p : HeapPage, Reached ⟨3, 7⟩ readings p ∧ p.numFree + p.tuples.length = 4 ∧ p.nextUsed? 0 = some 1 ∧
      Bitmap.test p.header 5 = true ∧
      ∃ p', p.insert noNumber = .ok (noNumber.withRecordId (some ⟨⟨3, 7⟩, 0⟩), p') ∧ (p'.tuple? 1).isSome = true := by
  have h0 : Reached ⟨3, 7⟩ readings strayBits := .read _ decode_strayBits
  let changes : List Change := [.insert noNumber, .insert noNumber, .delete (some ⟨⟨3, 7⟩, 0⟩)]
  have h3 := ((h0.change (.insert noNumber)).change (.insert noNumber)).change (.delete (some ⟨⟨3, 7⟩, 0⟩))
  obtain ⟨-, -, -, -, -, hstray⟩ := h0.partial_map
  obtain ⟨-, -, hmapped, hinsert, -⟩ := h3.partial_map
  have hleast : IsLeast {i | (changes.foldl HeapPage.change strayBits).IsFree i} 0 :=
    ⟨⟨by decide +kernel, by decide +kernel⟩, fun i _ => Nat.zero_le i⟩
  obtain ⟨stored, p', hok, rfl, hsets⟩ := (hinsert noNumber).stored (by decide +kernel) 0 hleast
  refine ⟨_, h3, hmapped.count.trans (by decide +kernel), by decide +kernel, ?_, p', hok, ?_⟩
  · exact (hstray changes 5 (by decide)).trans (by decide)
  · rw [hsets.tuples]
    decide +kernel

end HeapStore.HeapPage
