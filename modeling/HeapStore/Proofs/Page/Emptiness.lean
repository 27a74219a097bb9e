import HeapStore.Proofs.Page.Slots

/-!
# Pages without tuples

Whether a page is without tuples is asked in several ways. The free slots, the stored tuples and the next slot in use
are counted and found below the number of slots and always agree (`HeapPage.WellFormed.numFree_eq_iff`,
`HeapPage.WellFormed.nextUsed?_zero_eq_none_iff`). `HeapPage.isEmpty` looks at whole bytes of the bitmap, which may have
bits past the last slot: it agrees with the others on the pages where these are clear (`HeapPage.Tidy`,
`HeapPage.WellFormed.isEmpty_iff`), and a change of the page never sets nor clears them.
-/

namespace HeapStore

/-- All bytes are zero exactly if no bit is set. -/
theorem Bitmap.isClear_iff {bytes : List UInt8} : isClear bytes = true ↔ ∀ i, test bytes i = false := by
  rw [isClear, List.all_eq_true]
  constructor
  · intro hzero i
    have hbyte : bytes.getD (i / 8) 0 = 0 := by
      rw [List.getD_eq_getElem?_getD]
      cases hget : bytes[i / 8]? with
      | none => rfl
      | some b => exact eq_of_beq (hzero b (List.mem_of_getElem? hget))
    rw [test, hbyte]
    exact Nat.zero_testBit _
  · intro hclear b hb
    obtain ⟨k, hk⟩ := List.mem_iff_getElem?.1 hb
    refine beq_iff_eq.2 (UInt8.toNat_inj.1 (Nat.eq_of_testBit_eq fun j => ?_))
    by_cases hj : j < 8
    · have hbit := hclear (8 * k + j)
      rw [test, show (8 * k + j) / 8 = k by omega, show (8 * k + j) % 8 = j by omega,
        List.getD_eq_getElem?_getD, hk] at hbit
      exact hbit.trans (Nat.zero_testBit _).symm
    · have hlt : b.toNat < 2 ^ j := Nat.lt_of_lt_of_le b.toNat_lt (Nat.pow_le_pow_right (by decide) (Nat.not_lt.1 hj))
      exact (Nat.testBit_lt_two_pow hlt).trans (Nat.zero_testBit _).symm

theorem Bitmap.test_eq_false_of_le {bytes : List UInt8} {i : Nat} (h : 8 * bytes.length ≤ i) :
    test bytes i = false := by
  rw [test, List.getD_eq_getElem?_getD, List.getElem?_eq_none (by omega)]
  exact Nat.zero_testBit _

theorem Bitmap.test_take {bytes : List UInt8} {n i : Nat} (h : i < 8 * n) : test (bytes.take n) i = test bytes i := by
  rw [test, test, List.getD_eq_getElem?_getD, List.getD_eq_getElem?_getD, List.getElem?_take_of_lt (by omega)]

namespace HeapPage

variable {p : HeapPage} {id : PageId} {s : Schema} {bytes : List UInt8}

/-! ### The number of tuples -/

theorem tuples_eq_nil_iff : p.tuples = [] ↔ ∀ i, p.tuple? i = none := by
  rw [tuples, List.filterMap_eq_nil_iff]
  constructor
  · intro hnone i
    rw [tuple?, Option.join_eq_none_iff]
    cases hget : p.slots[i]? with
    | none => exact .inl rfl
    | some entry => exact .inr (congrArg some (hnone entry (List.mem_of_getElem? hget)))
  · intro hnone entry hmem
    obtain ⟨i, hi⟩ := List.mem_iff_getElem?.1 hmem
    have htuple := hnone i
    rw [tuple?, hi, Option.join_some] at htuple
    exact htuple

theorem WellFormed.numFree_eq_iff (hp : p.WellFormed) : p.numFree = p.numSlots ↔ p.tuples = [] := by
  have hcount := hp.mapped.count
  rw [← List.length_eq_zero_iff]
  omega

theorem WellFormed.nextUsed?_zero_eq_none_iff (hp : p.WellFormed) : p.nextUsed? 0 = none ↔ p.tuples = [] := by
  rw [hp.nextUsed?_eq_none_iff, tuples_eq_nil_iff]
  exact ⟨fun h i => h i (Nat.zero_le i), fun h i _ => h i⟩

/-! ### Bits past the last slot -/

/-- No bit past the last slot is set. -/
def Tidy (p : HeapPage) : Prop := ∀ i, p.numSlots ≤ i → Bitmap.test p.header i = false

theorem WellFormed.isEmpty_iff (hp : p.WellFormed) : p.isEmpty = true ↔ p.tuples = [] ∧ p.Tidy := by
  rw [isEmpty, Bitmap.isClear_iff, tuples_eq_nil_iff]
  constructor
  · refine fun hclear => ⟨fun i => ?_, fun i _ => hclear i⟩
    by_cases hi : i < p.numSlots
    · have hbit := (hp.test_header i hi).symm.trans (hclear i)
      rwa [Option.isSome_eq_false_iff, Option.isNone_iff_eq_none] at hbit
    · rw [tuple?, List.getElem?_eq_none (Nat.not_lt.1 hi), Option.join_none]
  · rintro ⟨hnone, htidy⟩ i
    by_cases hi : i < p.numSlots
    · rw [hp.test_header i hi, hnone i, Option.isSome_none]
    · exact htidy i (Nat.not_lt.1 hi)

theorem Tidy.isEmpty_iff (htidy : p.Tidy) (hp : p.WellFormed) : p.isEmpty = true ↔ ∀ i, p.tuple? i = none := by
  rw [hp.isEmpty_iff, and_iff_left htidy, tuples_eq_nil_iff]

theorem tidy_blank (id : PageId) (s : Schema) : (blank id s).Tidy := fun i _ => by
  have hclear : Bitmap.isClear (blank id s).header = true := by simp [Bitmap.isClear, blank]
  exact Bitmap.isClear_iff.1 hclear i

theorem Sets.tidy {slot : Nat} {entry : Option Tuple} {p' : HeapPage} (h : Sets slot entry p p') (htidy : p.Tidy) :
    p'.Tidy := fun i hi => by
  rw [h.numSlots] at hi
  rw [h.test_of_le hi]
  exact htidy i hi

theorem WellFormed.changes (hp : p.WellFormed) (changes : List Change) :
    (changes.foldl HeapPage.change p).WellFormed ∧ (changes.foldl HeapPage.change p).numSlots = p.numSlots := by
  induction changes generalizing p with
  | nil => exact ⟨hp, rfl⟩
  | cons c changes ih =>
    obtain ⟨hp', -⟩ := hp.change c
    obtain ⟨hlast, hsame⟩ := ih hp'
    refine ⟨hlast, hsame.trans ?_⟩
    obtain heq | ⟨slot, entry, hsets⟩ := hp.sets_change c
    · rw [heq]
    · exact hsets.numSlots

theorem WellFormed.tidy_changes_iff (hp : p.WellFormed) (changes : List Change) :
    (changes.foldl HeapPage.change p).Tidy ↔ p.Tidy := by
  rw [Tidy, (hp.changes changes).2, Tidy]
  exact forall₂_congr fun i hi => by rw [hp.test_changes changes hi]

/-- The bits past the last slot of a page that was read are those of the block. -/
theorem tidy_iff_of_decode (h : decode id s bytes = .ok p) :
    p.Tidy ↔ ∀ i, p.numSlots ≤ i → i < 8 * headerSize p.numSlots → Bitmap.test bytes i = false := by
  obtain ⟨hp, -, hschema, -⟩ := decode_wellFormed h
  have hslots : p.numSlots = slotsPerPage s.width := hp.length_slots.trans (by rw [hschema])
  have hheader : p.header = bytes.take (headerSize p.numSlots) := by
    obtain ⟨-, -, read, -, rfl⟩ := of_decode h
    rw [hslots]
  have hlength : p.header.length = headerSize p.numSlots := by rw [hp.length_header, hschema, hslots]
  refine ⟨fun htidy i hi hin => ?_, fun hclear i hi => ?_⟩
  · rw [← Bitmap.test_take hin, ← hheader]
    exact htidy i hi
  · by_cases hin : i < 8 * headerSize p.numSlots
    · rw [hheader, Bitmap.test_take hin]
      exact hclear i hi hin
    · exact Bitmap.test_eq_false_of_le (by omega)

/-! ### Pages that are read -/

/-- **The ways to ask whether a page is without tuples agree, up to the bits past the last slot.** Whatever block a
page was read from and whatever changes were tried on it, all its slots are free exactly if it gives no tuple, and
exactly if no slot from the first on is in use. The test of the whole bitmap agrees with them if the block had no bit
set past the last slot; otherwise it never holds. -/
theorem emptiness_of_decode (h : decode id s bytes = .ok p) (changes : List Change) :
    let q := changes.foldl HeapPage.change p
    (q.numFree = q.numSlots ↔ q.tuples = []) ∧ (q.nextUsed? 0 = none ↔ q.tuples = []) ∧
      (q.isEmpty = true ↔ q.tuples = [] ∧
        ∀ i, q.numSlots ≤ i → i < 8 * headerSize q.numSlots → Bitmap.test bytes i = false) := by
  intro q
  obtain ⟨hp, -⟩ := decode_wellFormed h
  obtain ⟨hq, hslots⟩ : q.WellFormed ∧ q.numSlots = p.numSlots := hp.changes changes
  refine ⟨hq.numFree_eq_iff, hq.nextUsed?_zero_eq_none_iff, ?_⟩
  rw [hq.isEmpty_iff, hp.tidy_changes_iff changes, tidy_iff_of_decode h, hslots]

/-- A tuple comes and goes on a page that was read with two bits set past its four slots: it is without tuples again,
and its bitmap is not clear. -/
theorem emptiness_of_strayBits :
    let p := [Change.insert noNumber, .delete (some ⟨⟨3, 7⟩, 0⟩)].foldl HeapPage.change strayBits
    p.numFree = p.numSlots ∧ p.nextUsed? 0 = none ∧ ¬ p.isEmpty = true := by
  intro p
  obtain ⟨hfree, hnext, hempty⟩ :=
    emptiness_of_decode decode_strayBits [.insert noNumber, .delete (some ⟨⟨3, 7⟩, 0⟩)]
  have hnone : p.tuples = [] := by decide +kernel
  refine ⟨hfree.2 hnone, hnext.2 hnone, fun hclear => ?_⟩
  have hbit := (hempty.1 hclear).2 5 (by decide +kernel) (by decide +kernel)
  exact absurd hbit (by decide)

/-- A page that can be read, and on which no slot is in use, need not pass the test of the whole bitmap. -/
theorem isEmpty_strayBits :
    decode ⟨3, 7⟩ readings (0xa0 :: List.replicate 4095 0) = .ok strayBits ∧ strayBits.numFree = strayBits.numSlots ∧
      strayBits.tuples = [] ∧ strayBits.nextUsed? 0 = none ∧ strayBits.isEmpty = false :=
  ⟨decode_strayBits, by decide, by decide, by decide, by decide⟩

end HeapPage

end HeapStore
