import HeapStore.Proofs.Page.RoundTrip

/-!
# Pages under changes

A page starts empty or is read from any bytes that can be read, and is then changed by inserts and deletes,
of which some fail (`Reached`). All such pages are well-formed (`Reached.wellFormed`), so what holds of
well-formed pages holds of them at every moment:

* Where the bytes of a slot are (`WellFormed.block_slot`): the writer puts slot after slot, and a slot's
  bytes are those at its offset. A free slot is zeros, whatever bytes the page was read from, and so is what
  comes after the last slot (`WellFormed.block_padding`).
* The block is read as a page that stores the same in the same slots (`Reached.block_round_trip`).
-/

namespace HeapStore

namespace HeapPage

variable {p q : HeapPage} {id : PageId} {s : Schema}

/-! ### The bytes of a slot -/

theorem take_drop_flatMap {α : Type} {width : Nat} {field : α → List UInt8} {entries : List α}
    (h : ∀ x ∈ entries, (field x).length = width) (rest : List UInt8) {i : Nat} (hi : i < entries.length) :
    ((entries.flatMap field ++ rest).drop (i * width)).take width = field entries[i] := by
  induction entries generalizing i with
  | nil => simp at hi
  | cons x entries ih =>
    have hx : (field x).length = width := h x List.mem_cons_self
    rw [List.flatMap_cons, List.append_assoc]
    cases i with
    | zero => rw [Nat.zero_mul, List.drop_zero, List.take_left' hx, List.getElem_cons_zero]
    | succ i =>
      have hsplit : (i + 1) * width = (field x).length + i * width := by
        rw [hx, Nat.add_mul, Nat.one_mul, Nat.add_comm]
      rw [hsplit, ← List.drop_drop, List.drop_left, List.getElem_cons_succ]
      exact ih (fun y hy => h y (List.mem_cons_of_mem x hy)) (Nat.lt_of_succ_lt_succ hi)

theorem WellFormed.block_slot (hp : p.WellFormed) {slot : Nat} (h : slot < p.numSlots) :
    (p.block.bytes.drop (slotOffset p.numSlots p.schema.width slot)).take p.schema.width =
      encodeSlot p.schema.width (p.tuple? slot) := by
  have hentries : ∀ entry ∈ p.slots, (encodeSlot p.schema.width entry).length = p.schema.width := by
    rintro entry hentry
    exact length_encodeSlot fun t ht => sameTypes_of_mem hp t (ht ▸ hentry)
  have htuple : p.tuple? slot = p.slots[slot] := by rw [tuple?, List.getElem?_eq_getElem h, Option.join_some]
  have hheader : headerSize p.numSlots = p.header.length := by rw [hp.length_header, numSlots, hp.length_slots]
  rw [hp.block_bytes, slotOffset, encode, List.append_assoc, hheader, ← List.drop_drop, List.drop_left,
    take_drop_flatMap hentries _ h, htuple]

theorem WellFormed.block_padding (hp : p.WellFormed) :
    p.block.bytes.drop (slotOffset p.numSlots p.schema.width p.numSlots) =
      List.replicate (pageSize - slotOffset p.numSlots p.schema.width p.numSlots) 0 := by
  rw [hp.block_bytes, ← hp.length_encode, List.drop_left]

theorem lt_of_tuple?_eq_some {slot : Nat} {t : Tuple} (h : p.tuple? slot = some t) : slot < p.slots.length := by
  by_contra hge
  rw [tuple?, List.getElem?_eq_none (Nat.not_lt.1 hge)] at h
  simp at h

theorem WellFormed.isUsed_eq (hp : p.WellFormed) (slot : Nat) : p.isUsed slot = (p.tuple? slot).isSome := by
  unfold isUsed
  by_cases h : slot < p.numSlots
  · rw [decide_eq_true h, Bool.true_and, hp.test_header slot h]
  · rw [decide_eq_false h, Bool.false_and, tuple?, List.getElem?_eq_none (Nat.not_lt.1 h)]
    rfl

/-- The slots in use from `start` on are looked at in their order. -/
theorem WellFormed.nextUsed?_eq (hp : p.WellFormed) (start : Nat) :
    p.nextUsed? start = ((p.slots.drop start).findIdx? (·.isSome)).map (start + ·) := by
  rw [nextUsed?, occupancy_eq hp, ← List.map_drop, List.findIdx?_map]
  congr 2
  funext entry
  cases entry <;> rfl

theorem tuple?_add (start k : Nat) : p.tuple? (start + k) = (p.slots.drop start)[k]?.join := by
  rw [tuple?, List.getElem?_drop]

/-- The next slot in use holds a tuple, and those before it hold none. -/
theorem WellFormed.of_nextUsed?_eq_some (hp : p.WellFormed) {start slot : Nat} (h : p.nextUsed? start = some slot) :
    start ≤ slot ∧ (∃ t, p.tuple? slot = some t) ∧ ∀ j, start ≤ j → j < slot → p.tuple? j = none := by
  rw [hp.nextUsed?_eq, Option.map_eq_some_iff] at h
  obtain ⟨k, hk, rfl⟩ := h
  obtain ⟨hlt, hused, hfree⟩ := List.findIdx?_eq_some_iff_getElem.1 hk
  refine ⟨Nat.le_add_right start k, ?_, fun j hj hjk => ?_⟩
  · obtain ⟨t, ht⟩ := Option.isSome_iff_exists.1 hused
    exact ⟨t, by rw [tuple?_add, List.getElem?_eq_getElem hlt, ht, Option.join_some]⟩
  · obtain ⟨i, rfl⟩ := Nat.exists_eq_add_of_le hj
    have hi : i < k := by omega
    rw [tuple?_add, List.getElem?_eq_getElem (by omega), Option.join_some]
    simpa using hfree i hi

theorem WellFormed.of_nextUsed?_eq_none (hp : p.WellFormed) {start : Nat} (h : p.nextUsed? start = none) {j : Nat}
    (hj : start ≤ j) : p.tuple? j = none := by
  rw [hp.nextUsed?_eq, Option.map_eq_none_iff, List.findIdx?_eq_none_iff] at h
  obtain ⟨i, rfl⟩ := Nat.exists_eq_add_of_le hj
  rw [tuple?_add]
  cases hi : (p.slots.drop start)[i]? with
  | none => rfl
  | some entry => simpa using h entry (List.mem_of_getElem? hi)

/-! ### Changes -/

/-- A change that is asked of a page. -/
inductive Change where
  | insert (t : Tuple)
  | delete (r : Option RecordId)
deriving DecidableEq

/-- The page once the change was tried; if it fails, the page is as before. -/
def change (p : HeapPage) : Change → HeapPage
  | .insert t =>
    match p.insert t with
    | .ok (_, p') => p'
    | .error _ => p
  | .delete r =>
    match p.delete r with
    | .ok p' => p'
    | .error _ => p

/-- The pages that a new page and the pages that can be read become by changes, and while they are marked
as changed or as written. -/
inductive Reached (id : PageId) (s : Schema) : HeapPage → Prop
  | empty {p : HeapPage} : HeapPage.empty id s = .ok p → Reached id s p
  | read {p : HeapPage} (bytes : List UInt8) : decode id s bytes = .ok p → Reached id s p
  | change {p : HeapPage} (c : Change) : Reached id s p → Reached id s (p.change c)
  | mark {p : HeapPage} (txn : Option TxnId) : Reached id s p → Reached id s { p with dirtiedBy := txn }

theorem empty_eq_ok_iff : HeapPage.empty id s = .ok p ↔ s.checkStorable = .ok () ∧ p = blank id s := by
  unfold HeapPage.empty
  cases s.checkStorable with
  | error e => simp [Except.map]
  | ok => simp [Except.map, eq_comm]

theorem wellFormed_blank (id : PageId) (hs : s.checkStorable = .ok ()) : (blank id s).WellFormed :=
  (decode_wellFormed (decode_zero id hs)).1

theorem id_of_insert {t stored : Tuple} (h : p.insert t = .ok (stored, q)) : q.id = p.id := by
  unfold insert at h
  split at h
  · simp at h
  · split at h
    · simp at h
    · obtain ⟨-, rfl⟩ := Prod.mk.inj (Except.ok.inj h)
      rfl

theorem id_of_delete {r : Option RecordId} (h : p.delete r = .ok q) : q.id = p.id := by
  unfold delete at h
  cases r with
  | none => simp at h
  | some r =>
    dsimp only at h
    split at h
    · simp at h
    · split at h
      · simp at h
      · split at h
        · simp at h
        · obtain rfl := Except.ok.inj h
          rfl

theorem id_change (p : HeapPage) (c : Change) : (p.change c).id = p.id := by
  unfold change
  split
  · split
    · next h => exact id_of_insert h
    · rfl
  · split
    · next h => exact id_of_delete h
    · rfl

theorem WellFormed.change (hp : p.WellFormed) (c : Change) :
    (p.change c).WellFormed ∧ (p.change c).id = p.id ∧ (p.change c).schema = p.schema := by
  cases c with
  | insert t =>
    unfold HeapPage.change
    dsimp only
    split
    · next h =>
      obtain ⟨-, -, -, -, -, hp', hid, hschema⟩ := hp.insert h
      exact ⟨hp', hid, hschema⟩
    · exact ⟨hp, rfl, rfl⟩
  | delete r =>
    unfold HeapPage.change
    dsimp only
    split
    · next h =>
      obtain ⟨-, -, -, -, -, -, hp', hid, hschema⟩ := hp.delete h
      exact ⟨hp', hid, hschema⟩
    · exact ⟨hp, rfl, rfl⟩

theorem Reached.wellFormed (h : Reached id s p) : p.WellFormed ∧ p.id = id ∧ p.schema = s := by
  induction h with
  | empty h =>
    obtain ⟨hs, rfl⟩ := empty_eq_ok_iff.1 h
    exact ⟨wellFormed_blank id hs, rfl, rfl⟩
  | read bytes h =>
    obtain ⟨hp, hid, hschema, -⟩ := decode_wellFormed h
    exact ⟨hp, hid, hschema⟩
  | change c _ ih =>
    obtain ⟨hp, hid, hschema⟩ := ih
    obtain ⟨hp', hid', hschema'⟩ := hp.change c
    exact ⟨hp', hid'.trans hid, hschema'.trans hschema⟩
  | mark txn _ ih =>
    obtain ⟨hp, hid, hschema⟩ := ih
    cases txn with
    | none => exact ⟨hp.markClean, hid, hschema⟩
    | some txn => exact ⟨hp.markDirty txn, hid, hschema⟩

/-- **Pages are read as they were written.** A page that some new page or some page that was read became by
changes fits into its block. The block is read as a clean page with the same header, the same slots in use
and the same values in them, to the last bit, whose tuples know their places. The bytes of free slots and
those after the last slot are zero. -/
theorem Reached.block_round_trip (h : Reached id s p) :
    p.encode.length ≤ pageSize ∧
      (∃ q, decode id s p.block.bytes = .ok q ∧ q.dirtiedBy = none ∧ q.header = p.header ∧ q.rows = p.rows ∧
        (∀ slot, q.isUsed slot = p.isUsed slot ∧ q.isUsed slot = (q.tuple? slot).isSome) ∧
        ∀ slot t, q.tuple? slot = some t →
          ∃ r, t.recordId = some r ∧ r.page = id ∧ r.slot.toNat = slot) ∧
      (∀ slot < p.numSlots, p.isUsed slot = false →
        (p.block.bytes.drop (slotOffset p.numSlots s.width slot)).take s.width = List.replicate s.width 0) ∧
      p.block.bytes.drop (slotOffset p.numSlots s.width p.numSlots) =
        List.replicate (pageSize - slotOffset p.numSlots s.width p.numSlots) 0 := by
  obtain ⟨hp, rfl, rfl⟩ := h.wellFormed
  refine ⟨hp.length_encode_le, ?_, fun slot hslot hfree => ?_, hp.block_padding⟩
  · obtain ⟨q, hq, hrows, hheader⟩ := hp.decode_block
    obtain ⟨hwf, hid, -, hclean⟩ := decode_wellFormed hq
    have hslots : q.numSlots = p.numSlots := by simpa [rows, numSlots] using congrArg List.length hrows
    refine ⟨q, hq, hclean, hheader, hrows, fun slot => ⟨?_, hwf.isUsed_eq slot⟩, fun slot t ht => ?_⟩
    · rw [isUsed, isUsed, hslots, hheader]
    · have hlt : slot < slotsPerPage q.schema.width := hwf.length_slots ▸ lt_of_tuple?_eq_some ht
      exact ⟨recordId q.id slot, (hwf.stored slot t ht).2, hid,
        toNat_recordId (Nat.lt_trans hlt (slotsPerPage_lt _)) q.id⟩
  · have hnone : p.tuple? slot = none := by simpa [hp.isUsed_eq slot] using hfree
    rw [hp.block_slot hslot, hnone, encodeSlot]

/-- Texts of at most 1000 bytes, and numbers. -/
def readings : Schema := ⟨[⟨"name", .char 1000⟩, ⟨"value", .double⟩]⟩

/-- A reading that is no number, with a sign and a payload, by other column names. -/
def noNumber : Tuple where
  schema := ⟨[⟨"a", .char 1000⟩, ⟨"b", .double⟩]⟩
  values := [.string "é", .double 0xfff8000000000001]
  recordId := none
  accepted := by decide

/-- Of two tuples on a new page the first is deleted, which fails the second time: the block is read as a page
with the other one. -/
theorem block_round_trip_of_noNumber :
    ∃ p q : HeapPage, Reached ⟨3, 7⟩ readings p ∧ decode ⟨3, 7⟩ readings p.block.bytes = .ok q ∧
      q.rows = [none, some [.string "é", .double 0xfff8000000000001], none, none] ∧
      (p.block.bytes.drop (slotOffset 4 1012 0)).take 1012 = List.replicate 1012 0 := by
  have h0 : Reached ⟨3, 7⟩ readings (blank ⟨3, 7⟩ readings) := .empty (empty_eq_ok_iff.2 ⟨by decide, rfl⟩)
  have h2 := (h0.change (.insert noNumber)).change (.insert noNumber)
  have h4 := (h2.change (.delete (some ⟨⟨3, 7⟩, 0⟩))).change (.delete (some ⟨⟨3, 7⟩, 0⟩))
  obtain ⟨-, ⟨q, hq, -, -, hrows, -⟩, hfree, -⟩ := h4.block_round_trip
  exact ⟨_, q, h4, hq, hrows.trans (by decide +kernel), hfree 0 (by decide +kernel) (by decide +kernel)⟩

end HeapPage

end HeapStore
