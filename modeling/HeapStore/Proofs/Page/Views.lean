import HeapStore.Proofs.Page.RoundTrip
import Mathlib.Data.List.Flatten

/-!
# What is seen of a page

Two objects for one page may differ in who changed the page last, and in the column names that their tuples
came with. Nothing else depends on these: pages of the same `view` answer alike, take an insert or a delete
alike (`map_insert_congr`, `map_delete_congr`) and are written alike (`block_congr`). A page that was
written and read has the view that it had (`WellFormed.decode_block_view`).
-/

namespace HeapStore.HeapPage

/-- A page but for who changed it last and for the schemas of its tuples. -/
structure View where
  id : PageId
  schema : Schema
  header : List UInt8
  rows : List (Option (List Value))
deriving DecidableEq

def view (p : HeapPage) : View := ⟨p.id, p.schema, p.header, p.rows⟩

variable {p q : HeapPage}

theorem view_eq_iff :
    p.view = q.view ↔ p.id = q.id ∧ p.schema = q.schema ∧ p.header = q.header ∧ p.rows = q.rows := by
  rw [view, view, View.mk.injEq]

@[simp] theorem view_markDirty (txn : TxnId) : (p.markDirty txn).view = p.view := rfl

@[simp] theorem view_markClean : p.markClean.view = p.view := rfl

/-! ### Observations -/

theorem length_rows (p : HeapPage) : p.rows.length = p.numSlots := List.length_map ..

theorem numSlots_congr (h : p.view = q.view) : p.numSlots = q.numSlots := by
  obtain ⟨-, -, -, hrows⟩ := view_eq_iff.1 h
  rw [← length_rows, ← length_rows, hrows]

theorem occupancy_congr (h : p.view = q.view) : p.occupancy = q.occupancy := by
  obtain ⟨-, -, hheader, -⟩ := view_eq_iff.1 h
  rw [occupancy, occupancy, hheader, numSlots_congr h]

theorem isUsed_congr (h : p.view = q.view) (slot : Nat) : p.isUsed slot = q.isUsed slot := by
  obtain ⟨-, -, hheader, -⟩ := view_eq_iff.1 h
  rw [isUsed, isUsed, hheader, numSlots_congr h]

theorem isEmpty_congr (h : p.view = q.view) : p.isEmpty = q.isEmpty := by
  obtain ⟨-, -, hheader, -⟩ := view_eq_iff.1 h
  rw [isEmpty, isEmpty, hheader]

theorem numFree_congr (h : p.view = q.view) : p.numFree = q.numFree := by
  rw [numFree, numFree, occupancy_congr h]

theorem nextUsed?_congr (h : p.view = q.view) (start : Nat) : p.nextUsed? start = q.nextUsed? start := by
  rw [nextUsed?, nextUsed?, occupancy_congr h]

theorem firstFree?_congr (h : p.view = q.view) : p.firstFree? = q.firstFree? := by
  rw [firstFree?, firstFree?, occupancy_congr h]

theorem values_tuple? (p : HeapPage) (slot : Nat) : (p.tuple? slot).map (·.values) = p.rows[slot]?.join := by
  rw [tuple?, rows, List.getElem?_map]
  cases p.slots[slot]? with
  | none => rfl
  | some entry => rfl

theorem values_tuple?_congr (h : p.view = q.view) (slot : Nat) :
    (p.tuple? slot).map (·.values) = (q.tuple? slot).map (·.values) := by
  obtain ⟨-, -, -, hrows⟩ := view_eq_iff.1 h
  rw [values_tuple?, values_tuple?, hrows]

theorem tuple?_congr (hp : p.WellFormed) (hq : q.WellFormed) (h : p.view = q.view) (slot : Nat) :
    (p.tuple? slot = none ∧ q.tuple? slot = none) ∨
      ∃ t t', p.tuple? slot = some t ∧ q.tuple? slot = some t' ∧ t'.values = t.values ∧
        t.recordId = some (recordId p.id slot) ∧ t'.recordId = some (recordId p.id slot) := by
  obtain ⟨hid, -⟩ := view_eq_iff.1 h
  have hvalues := values_tuple?_congr h slot
  cases ht : p.tuple? slot with
  | none =>
    rw [ht, Option.map_none] at hvalues
    exact Or.inl ⟨rfl, Option.map_eq_none_iff.1 hvalues.symm⟩
  | some t =>
    rw [ht, Option.map_some] at hvalues
    obtain ⟨t', ht', hsame⟩ := Option.map_eq_some_iff.1 hvalues.symm
    exact Or.inr ⟨t, t', rfl, ht', hsame, (hp.stored slot t ht).2, hid ▸ (hq.stored slot t' ht').2⟩

/-- Pages of one id with the same rows have the same record ids and values. -/
theorem tuple?_of_rows_eq (hp : p.WellFormed) (hq : q.WellFormed) (hid : q.id = p.id) (hrows : q.rows = p.rows)
    (slot : Nat) :
    (q.tuple? slot).map (fun t => (t.recordId, t.values)) =
      (p.tuple? slot).map fun t => (t.recordId, t.values) := by
  have hvalues : (q.tuple? slot).map (·.values) = (p.tuple? slot).map (·.values) := by
    rw [values_tuple?, values_tuple?, hrows]
  have hlocated : ∀ {page : HeapPage}, page.WellFormed → (page.tuple? slot).map (fun t => (t.recordId, t.values)) =
      ((page.tuple? slot).map (·.values)).map fun values => (some (recordId page.id slot), values) := by
    intro page hpage
    rw [Option.map_map]
    apply Option.map_congr
    intro t ht
    rw [(hpage.stored slot t ht).2, Function.comp]
  rw [hlocated hq, hlocated hp, hvalues, hid]

theorem next_congr (hp : p.WellFormed) (hq : q.WellFormed) (h : p.view = q.view) (start : Nat) :
    (((p.nextUsed? start).bind fun slot => (p.tuple? slot).map (slot, ·)) = none ∧
        ((q.nextUsed? start).bind fun slot => (q.tuple? slot).map (slot, ·)) = none) ∨
      ∃ slot t t', ((p.nextUsed? start).bind fun slot => (p.tuple? slot).map (slot, ·)) = some (slot, t) ∧
        ((q.nextUsed? start).bind fun slot => (q.tuple? slot).map (slot, ·)) = some (slot, t') ∧
        t'.values = t.values ∧ t.recordId = some (recordId p.id slot) ∧
        t'.recordId = some (recordId p.id slot) := by
  rw [← nextUsed?_congr h]
  cases p.nextUsed? start with
  | none => exact Or.inl ⟨rfl, rfl⟩
  | some slot =>
    rw [Option.bind_some, Option.bind_some]
    obtain ⟨ht, ht'⟩ | ⟨t, t', ht, ht', hsame⟩ := tuple?_congr hp hq h slot
    · exact Or.inl ⟨by rw [ht, Option.map_none], by rw [ht', Option.map_none]⟩
    · exact Or.inr ⟨slot, t, t', by rw [ht, Option.map_some], by rw [ht', Option.map_some], hsame⟩

/-! ### Changes -/

theorem map_insert_congr (h : p.view = q.view) (t : Tuple) :
    (p.insert t).map (fun result => (result.1, result.2.view)) =
      (q.insert t).map fun result => (result.1, result.2.view) := by
  obtain ⟨hid, hschema, hheader, hrows⟩ := view_eq_iff.1 h
  unfold insert
  rw [hschema, hid, firstFree?_congr h]
  split
  · rfl
  · cases q.firstFree? with
    | none => rfl
    | some slot =>
      have hset : ∀ entry, ({ p with slots := p.slots.set slot entry } : HeapPage).rows =
          ({ q with slots := q.slots.set slot entry } : HeapPage).rows := fun entry => by
        rw [rows_set, rows_set, hrows]
      refine congrArg Except.ok (congrArg (Prod.mk _) (view_eq_iff.2 ⟨rfl, rfl, ?_, hset _⟩))
      show Bitmap.write p.header slot true = Bitmap.write q.header slot true
      rw [hheader]

theorem map_delete_congr (h : p.view = q.view) (r : Option RecordId) :
    (p.delete r).map view = (q.delete r).map view := by
  obtain ⟨hid, hschema, hheader, hrows⟩ := view_eq_iff.1 h
  unfold delete
  cases r with
  | none => rfl
  | some r =>
    dsimp only
    rw [hid, numSlots_congr h, isUsed_congr h]
    split
    · rfl
    · split
      · rfl
      · split
        · rfl
        · have hset : ({ p with slots := p.slots.set r.slot.toNat none } : HeapPage).rows =
              ({ q with slots := q.slots.set r.slot.toNat none } : HeapPage).rows := by
            rw [rows_set, rows_set, hrows]
          refine congrArg Except.ok (view_eq_iff.2 ⟨rfl, hschema, ?_, hset⟩)
          show Bitmap.write p.header r.slot.toNat false = Bitmap.write q.header r.slot.toNat false
          rw [hheader]

/-- Outcomes that agree in what is taken from them are both good, or failures for the same cause. -/
theorem outcomes_of_map_eq {ε α β γ : Type} {f : α → γ} {g : β → γ} {x : Except ε α} {y : Except ε β}
    (h : x.map f = y.map g) :
    (∃ a b, x = .ok a ∧ y = .ok b ∧ f a = g b) ∨ ∃ cause, x = .error cause ∧ y = .error cause := by
  cases x with
  | ok a => cases y with
    | ok b => exact Or.inl ⟨a, b, rfl, rfl, Except.ok.inj h⟩
    | error cause' => simp [Except.map] at h
  | error cause => cases y with
    | ok b => simp [Except.map] at h
    | error cause' => exact Or.inr ⟨cause, rfl, congrArg Except.error (Except.error.inj h).symm⟩

theorem insert_congr (h : p.view = q.view) (t : Tuple) :
    (∃ stored page page', p.insert t = .ok (stored, page) ∧ q.insert t = .ok (stored, page') ∧
        page.view = page'.view) ∨
      ∃ cause, p.insert t = .error cause ∧ q.insert t = .error cause := by
  obtain ⟨⟨stored, page⟩, ⟨stored', page'⟩, hp, hq, hsame⟩ | hfailed := outcomes_of_map_eq (map_insert_congr h t)
  · obtain ⟨rfl, hview⟩ := Prod.mk.inj hsame
    exact Or.inl ⟨stored, page, page', hp, hq, hview⟩
  · exact Or.inr hfailed

theorem delete_congr (h : p.view = q.view) (r : Option RecordId) :
    (∃ page page', p.delete r = .ok page ∧ q.delete r = .ok page' ∧ page.view = page'.view) ∨
      ∃ cause, p.delete r = .error cause ∧ q.delete r = .error cause :=
  outcomes_of_map_eq (map_delete_congr h r)

/-! ### Blocks -/

/-- The bytes of a row of the schema. -/
def encodeRow (s : Schema) : Option (List Value) → List UInt8
  | some values => Record.encodeValues s.columns values
  | none => List.replicate s.width 0

theorem encodeSlot_eq_encodeRow {s : Schema} {entry : Option Tuple}
    (h : ∀ t, entry = some t → t.schema.sameTypes s = true) :
    encodeSlot s.width entry = encodeRow s (entry.map (·.values)) := by
  cases entry with
  | none => rfl
  | some t => exact Record.encodeValues_congr (Schema.sameTypes_iff.1 (h t rfl)) t.values

theorem WellFormed.encode_eq (hp : p.WellFormed) : p.encode = p.header ++ p.rows.flatMap (encodeRow p.schema) := by
  rw [encode, rows, List.flatMap_map]
  congr 1
  apply List.flatMap_congr
  rintro entry hentry
  exact encodeSlot_eq_encodeRow fun t ht => sameTypes_of_mem hp t (ht ▸ hentry)

theorem block_congr (hp : p.WellFormed) (hq : q.WellFormed) (h : p.view = q.view) : p.block = q.block := by
  obtain ⟨-, hschema, hheader, hrows⟩ := view_eq_iff.1 h
  rw [block, block, hp.encode_eq, hq.encode_eq, hschema, hheader, hrows]

/-- A page that was written and read has the view that it had. -/
theorem WellFormed.decode_block_view (hp : p.WellFormed) :
    ∃ page, decode p.id p.schema p.block.bytes = .ok page ∧ page.view = p.view := by
  obtain ⟨page, hread, hrows, hheader⟩ := hp.decode_block
  obtain ⟨-, hid, hschema, -⟩ := decode_wellFormed hread
  exact ⟨page, hread, view_eq_iff.2 ⟨hid, hschema, hheader, hrows⟩⟩

end HeapStore.HeapPage
