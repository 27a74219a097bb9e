import HeapStore.Proofs.Page.Grammar
import Mathlib.Data.Set.Lattice
import Mathlib.Order.CompletePartialOrder

/-!
# Each slot has a place of its own

A page has as many slots as fit into it together with their bits (`isGreatest_slotsPerPage`). The bitmap comes first
and the records stand behind it, one after the other, so that none of them reaches into the bitmap
(`disjoint_headerBytes`), into another record (`disjoint_recordBytes`) or past the end of the page
(`recordBytes_subset`).
-/

namespace HeapStore

variable {slots width i j : Nat}

theorem isGreatest_slotsPerPage (width : Nat) :
    IsGreatest {slots | headerSize slots + slots * width ≤ pageSize} (slotsPerPage width) :=
  ⟨headerSize_add_le width, fun slots hfit => (le_slotsPerPage_iff slots width).2 hfit⟩

/-! ### Ranges of bytes -/

/-- The offsets of the bytes of the bitmap. -/
def headerBytes (slots : Nat) : Set Nat := Set.Iio (headerSize slots)

/-- The offsets of the bytes of a slot's record. -/
def recordBytes (slots width slot : Nat) : Set Nat :=
  Set.Ico (slotOffset slots width slot) (slotOffset slots width slot + width)

theorem disjoint_headerBytes (slots width slot : Nat) :
    Disjoint (headerBytes slots) (recordBytes slots width slot) := by
  rw [Set.disjoint_left]
  intro offset hheader hrecord
  have hstart : headerSize slots ≤ slotOffset slots width slot := Nat.le_add_right _ _
  exact absurd (Nat.lt_of_lt_of_le hheader hstart) (Nat.not_lt.2 hrecord.1)

/-- A record ends before that of a later slot starts. -/
theorem slotOffset_add_le_slotOffset (slots width : Nat) (h : i < j) :
    slotOffset slots width i + width ≤ slotOffset slots width j := by
  have hbefore : (i + 1) * width ≤ j * width := Nat.mul_le_mul_right width h
  rw [Nat.add_mul, Nat.one_mul] at hbefore
  unfold slotOffset
  omega

theorem disjoint_recordBytes (slots width : Nat) (h : i ≠ j) :
    Disjoint (recordBytes slots width i) (recordBytes slots width j) := by
  wlog hlt : i < j generalizing i j
  · exact (this h.symm (by omega)).symm
  · rw [Set.disjoint_left]
    intro offset hi hj
    have hbefore := slotOffset_add_le_slotOffset slots width hlt
    exact absurd (Nat.lt_of_lt_of_le hi.2 hbefore) (Nat.not_lt.2 hj.1)

theorem recordBytes_subset (h : i < slotsPerPage width) :
    recordBytes (slotsPerPage width) width i ⊆ Set.Iio pageSize :=
  fun _ hoffset => Nat.lt_of_lt_of_le hoffset.2 (HeapPage.slotOffset_add_le h)

/-! ### The width of a record -/

theorem ColumnType.width_pos (type : ColumnType) : 0 < type.width := by
  cases type with
  | char capacity => exact Nat.lt_of_lt_of_le (by decide) (Nat.le_add_right lengthBytes capacity.toNat)
  | _ => decide

theorem Schema.width_pos {s : Schema} (h : s.columns ≠ []) : 0 < s.width := by
  obtain ⟨c, columns, hcolumns⟩ := List.exists_cons_of_ne_nil h
  rw [width, hcolumns, widthOf]
  exact Nat.add_pos_left c.type.width_pos _

/-- **A page has as many slots as fit, and each has a place of its own.** Whatever the width of a record, the number
of slots is the greatest for which the bitmap and the records fit into a page. So if a schema can be stored, its
records have a width and there are slots for them, and for each slot: its bit is in a byte of the bitmap, the bytes of
its record are in the page, and none of them is one of the bitmap or of another slot's record, and its number can be
told from its record id. -/
theorem slots_fit :
    (∀ width, IsGreatest {slots | headerSize slots + slots * width ≤ pageSize} (slotsPerPage width)) ∧
      ∀ s : Schema, s.checkStorable = .ok () →
        let slots := slotsPerPage s.width
        0 < s.width ∧ 0 < slots ∧ ∀ i < slots,
          i / 8 < headerSize slots ∧ recordBytes slots s.width i ⊆ Set.Iio pageSize ∧
            Disjoint (headerBytes slots) (recordBytes slots s.width i) ∧
            (∀ j < slots, j ≠ i → Disjoint (recordBytes slots s.width i) (recordBytes slots s.width j)) ∧
            ∀ id, (HeapPage.recordId id i).slot.toNat = i := by
  refine ⟨isGreatest_slotsPerPage, fun s hs => ?_⟩
  obtain ⟨hcolumns, hslots⟩ := HeapPage.checkStorable_eq_ok_iff.1 hs
  refine ⟨Schema.width_pos hcolumns, hslots, fun i hi => ?_⟩
  have hnumber : i < 65536 := Nat.lt_trans hi (slotsPerPage_lt s.width)
  exact ⟨HeapPage.div_lt_headerSize hi, recordBytes_subset hi, disjoint_headerBytes _ _ i,
    fun j _ hne => disjoint_recordBytes _ _ hne.symm, HeapPage.toNat_recordId hnumber⟩

/-- One boolean to a record. -/
def booleans : Schema := ⟨[⟨"b", .boolean⟩]⟩

/-- There are 3640 slots for booleans, which leave one byte of the page free. One slot more would take two bytes, as
its bit would need a new byte of the bitmap. -/
theorem slots_fit_of_booleans :
    booleans.checkStorable = .ok () ∧ slotsPerPage booleans.width = 3640 ∧ slotOffset 3640 1 3639 + 1 = 4095 ∧
      ¬ headerSize 3641 + 3641 * booleans.width ≤ pageSize ∧
      3639 / 8 < headerSize 3640 ∧ recordBytes 3640 1 3639 ⊆ Set.Iio pageSize ∧
      Disjoint (headerBytes 3640) (recordBytes 3640 1 0) ∧
      Disjoint (recordBytes 3640 1 3639) (recordBytes 3640 1 3638) ∧
      (HeapPage.recordId ⟨0, 7⟩ 3639).slot.toNat = 3639 := by
  obtain ⟨hgreatest, hplaces⟩ := slots_fit
  have hstorable : booleans.checkStorable = .ok () := by decide
  have hslots : slotsPerPage booleans.width = 3640 := by decide
  obtain ⟨-, -, hplace⟩ := hplaces booleans hstorable
  rw [hslots] at hplace
  obtain ⟨hbit, hinside, -, hothers, hid⟩ := hplace 3639 (by decide)
  obtain ⟨-, -, hheader, -, -⟩ := hplace 0 (by decide)
  have hnotMore : ¬ 3641 ≤ slotsPerPage booleans.width := by
    rw [hslots]
    decide
  exact ⟨hstorable, hslots, rfl, fun hfit => hnotMore ((hgreatest booleans.width).2 hfit), hbit, hinside, hheader,
    hothers 3638 (by decide) (by decide), hid ⟨0, 7⟩⟩

end HeapStore
