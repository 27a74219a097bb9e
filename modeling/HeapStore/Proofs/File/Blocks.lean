import HeapStore.File.Heap
import HeapStore.Proofs.Page.RoundTrip

/-!
# Pages in a file

What is written at an offset is what is read there afterwards, and everything else stays as it was
(`Disk.read_write`, `Disk.read_write_of_disjoint`). For a file whose pages are all on the disk
(`HeapFile.OnDisk`) this says what overwriting a page and appending one do to the pages that are read:

* Overwriting a page changes the reading of that page (`OnDisk.load_write`) and of no other one, in this
  file (`OnDisk.load_write_of_ne`) or in another (`load_of_contents_eq`).
* Appending adds a page without tuples (`OnDisk.load_append`) and changes no other page
  (`OnDisk.load_append_of_ne`).

The files of two tables are told apart by their paths.
-/

namespace HeapStore

theorem bind_eq_ok_iff {ε α β : Type} {x : Except ε α} {f : α → Except ε β} {b : β} :
    (x >>= f) = .ok b ↔ ∃ a, x = .ok a ∧ f a = .ok b := by
  cases x with
  | error cause => exact ⟨fun h => by simp [bind, Except.bind] at h, fun ⟨a, ha, _⟩ => by simp at ha⟩
  | ok a => exact ⟨fun h => ⟨a, rfl, h⟩, fun ⟨a', ha, h⟩ => by obtain rfl := Except.ok.inj ha; exact h⟩

namespace Disk

variable {bytes data : List UInt8} {offset : Nat}

theorem resize_of_le (h : offset ≤ bytes.length) : resize bytes offset = bytes.take offset := by
  rw [resize, Nat.sub_eq_zero_of_le h, List.replicate_zero, List.append_nil]

theorem overwrite_eq (h : offset ≤ bytes.length) :
    overwrite bytes offset data = bytes.take offset ++ (data ++ bytes.drop (offset + data.length)) := by
  unfold overwrite
  split
  · next hempty =>
    obtain rfl := List.isEmpty_iff.1 hempty
    rw [List.nil_append, List.length_nil, Nat.add_zero, List.take_append_drop]
  · rw [resize_of_le h, List.append_assoc]

theorem length_take_of_le (h : offset ≤ bytes.length) : (bytes.take offset).length = offset := by
  rw [List.length_take, Nat.min_eq_left h]

theorem length_overwrite (h : offset ≤ bytes.length) :
    (overwrite bytes offset data).length = max bytes.length (offset + data.length) := by
  rw [overwrite_eq h, List.length_append, List.length_append, length_take_of_le h, List.length_drop]
  omega

theorem length_resize (bytes : List UInt8) (n : Nat) : (resize bytes n).length = n := by
  rw [resize, List.length_append, List.length_take, List.length_replicate]
  omega

theorem take_drop_overwrite (bytes : List UInt8) (offset : Nat) (data : List UInt8) :
    ((overwrite bytes offset data).drop offset).take data.length = data := by
  unfold overwrite
  split
  · next hempty => rw [List.isEmpty_iff.1 hempty, List.length_nil, List.take_zero]
  · rw [List.append_assoc, List.drop_left' (length_resize bytes offset), List.take_left' rfl]

/-- What stands before or behind the bytes that are replaced is read as before. -/
theorem take_drop_overwrite_of_disjoint (h : offset ≤ bytes.length) {start length : Nat}
    (hdisjoint : start + length ≤ offset ∨ offset + data.length ≤ start) :
    ((overwrite bytes offset data).drop start).take length = (bytes.drop start).take length := by
  rw [overwrite_eq h]
  apply List.ext_getElem?
  intro i
  by_cases hi : i < length
  · rw [List.getElem?_take_of_lt hi, List.getElem?_take_of_lt hi, List.getElem?_drop, List.getElem?_drop]
    cases hdisjoint with
    | inl hbefore =>
      rw [List.getElem?_append_left (by rw [length_take_of_le h]; omega),
        List.getElem?_take_of_lt (by omega)]
    | inr hbehind =>
      rw [List.getElem?_append_right (by rw [length_take_of_le h]; omega), length_take_of_le h,
        List.getElem?_append_right (by omega), List.getElem?_drop]
      congr 1
      omega
  · rw [List.getElem?_eq_none (by rw [List.length_take]; omega),
      List.getElem?_eq_none (by rw [List.length_take]; omega)]

variable {d : Disk} {file : List String}

theorem contents?_write (other : List String) :
    (d.write file offset data).contents? other =
      if other = file then some (overwrite (d.contents file) offset data) else d.contents? other := by
  unfold contents? write
  simp only [Std.ExtTreeMap.getElem?_insert, Std.compare_eq_iff_eq, eq_comm (a := file)]

theorem contents_write (other : List String) :
    (d.write file offset data).contents other =
      if other = file then overwrite (d.contents file) offset data else d.contents other := by
  rw [contents, contents?_write]
  split <;> rfl

theorem contents_write_self :
    (d.write file offset data).contents file = overwrite (d.contents file) offset data := by
  rw [contents_write, if_pos rfl]

theorem read_write (d : Disk) (file : List String) (offset : Nat) (data : List UInt8) :
    (d.write file offset data).read file offset data.length = data := by
  rw [read, contents_write_self, take_drop_overwrite]

theorem read_write_of_disjoint (data : List UInt8) (h : offset ≤ (d.contents file).length) {start length : Nat}
    (hdisjoint : start + length ≤ offset ∨ offset + data.length ≤ start) :
    (d.write file offset data).read file start length = d.read file start length := by
  rw [read, contents_write_self, take_drop_overwrite_of_disjoint h hdisjoint, read]

theorem contents?_create_of_ne {other : List String} (h : other ≠ file) :
    (d.create file).contents? other = d.contents? other := by
  unfold contents? create
  simp only [Std.ExtTreeMap.getElem?_insert, Std.compare_eq_iff_eq, if_neg (Ne.symm h)]

theorem contents_create (file other : List String) : (d.create file).contents other = d.contents other := by
  by_cases h : other = file
  · subst h
    unfold contents contents? create
    simp only [Std.ExtTreeMap.getElem?_insert_self]
    rfl
  · rw [contents, contents?_create_of_ne h, contents]

/-- Creating a file that exists changes nothing. -/
theorem create_eq_self (h : (d.contents? file).isSome = true) : d.create file = d := by
  have hfiles : d.files.insert file (d.contents file) = d.files := by
    apply Std.ExtTreeMap.ext_getElem?
    intro other
    rw [Std.ExtTreeMap.getElem?_insert]
    split
    · next heq =>
      obtain rfl := Std.LawfulEqOrd.eq_of_compare heq
      obtain ⟨bytes, hbytes⟩ := Option.isSome_iff_exists.1 h
      rw [contents, hbytes]
      exact hbytes.symm
    · rfl
  rw [create, hfiles]

/-! ### Which file a path names -/

section

variable {d' : Disk} {path name : String} {folder : List String}

/-- Which folder is entered is a matter of the folders only. -/
theorem enter_eq_ok_iff (h : d'.folders = d.folders) :
    d'.enter folder name = .ok file ↔ d.enter folder name = .ok file := by
  have hfolder : ∀ path, d'.isFolder path = d.isFolder path := fun path => by rw [isFolder, isFolder, h]
  unfold enter
  rw [hfolder]
  split
  · rfl
  · split
    · rfl
    · split
      · rfl
      · split
        · rfl
        · split <;> split <;> simp

theorem foldlM_enter_eq_ok_iff (h : d'.folders = d.folders) (names : List String) :
    names.foldlM d'.enter folder = .ok file ↔ names.foldlM d.enter folder = .ok file := by
  induction names generalizing folder with
  | nil => rfl
  | cons name names ih =>
    rw [List.foldlM_cons, List.foldlM_cons, bind_eq_ok_iff, bind_eq_ok_iff]
    exact exists_congr fun entered => and_congr (enter_eq_ok_iff h) ih

/-- Which file a path names is a matter of the folders only. -/
theorem target_eq_ok_iff (h : d'.folders = d.folders) : d'.target path = .ok file ↔ d.target path = .ok file := by
  have hfolder : ∀ path, d'.isFolder path = d.isFolder path := fun path => by rw [isFolder, isFolder, h]
  unfold target
  simp only [bind_eq_ok_iff, foldlM_enter_eq_ok_iff h, hfolder]

end

end Disk

namespace HeapFile

/-- Reads a page of the file. -/
def load (f : HeapFile) (d : Disk) (p : PageId) : Except StorageError HeapPage := do
  HeapPage.decode p f.schema (← f.readBlock d p).bytes

/-- The file, whatever was read and written. -/
def uncounted (f : HeapFile) : HeapFile := { f with numReads := 0, numWrites := 0 }

/-- Is this one of the file's pages? -/
def Has (f : HeapFile) (p : PageId) : Prop := p.table = f.table ∧ p.number < f.numPages

/-- The pages of the file can be read from the disk. -/
structure OnDisk (f : HeapFile) (d : Disk) : Prop where
  storable : f.schema.checkStorable = .ok ()
  length : f.numPages * pageSize ≤ (d.contents f.path).length

variable {f g : HeapFile} {d d' : Disk} {p q : PageId}

theorem uncounted_eq_iff : f.uncounted = g.uncounted ↔
    f.table = g.table ∧ f.schema = g.schema ∧ f.path = g.path ∧ f.numPages = g.numPages := by
  unfold uncounted
  rw [mk.injEq]
  simp only [and_true]

theorem offset?_of_has (h : f.Has p) : f.offset? p = .ok (p.number * pageSize) := by
  have hnumber := h.2
  rw [offset?, if_neg]
  simp [h.1]
  omega

theorem offset?_of_not_has (h : ¬ f.Has p) : f.offset? p = .error (.pageNotFound p) := by
  rw [offset?, if_pos]
  unfold Has at h
  simp only [not_and, Nat.not_lt] at h
  by_cases htable : p.table = f.table
  · simp [h htable]
  · simp [htable]

theorem load_of_not_has (h : ¬ f.Has p) : f.load d p = .error (.pageNotFound p) := by
  unfold load readBlock
  rw [offset?_of_not_has h]
  rfl

/-- Only the contents of its own file matter to a page. -/
theorem load_of_contents_eq (h : d'.contents f.path = d.contents f.path) : f.load d' p = f.load d p := by
  unfold load readBlock Disk.read
  rw [h]

theorem load_eq_of_uncounted_eq (h : f.uncounted = g.uncounted) : f.load d p = g.load d p := by
  obtain ⟨htable, hschema, hpath, hpages⟩ := uncounted_eq_iff.1 h
  unfold load readBlock offset?
  rw [htable, hschema, hpath, hpages]

theorem OnDisk.of_contents_eq (h : f.OnDisk d) (heq : d'.contents f.path = d.contents f.path) : f.OnDisk d' :=
  ⟨h.storable, by rw [heq]; exact h.length⟩

theorem OnDisk.of_uncounted_eq (h : f.OnDisk d) (heq : f.uncounted = g.uncounted) : g.OnDisk d := by
  obtain ⟨-, hschema, hpath, hpages⟩ := uncounted_eq_iff.1 heq
  exact ⟨hschema ▸ h.storable, by rw [← hpath, ← hpages]; exact h.length⟩

theorem end_le (h : f.OnDisk d) (hp : f.Has p) :
    p.number * pageSize + pageSize ≤ (d.contents f.path).length := by
  have hend : (p.number + 1) * pageSize ≤ f.numPages * pageSize := Nat.mul_le_mul_right _ hp.2
  have hlength := h.length
  rw [Nat.succ_mul] at hend
  omega

/-- A page of the file is decoded from its place in the file. -/
theorem OnDisk.load_eq (h : f.OnDisk d) (hp : f.Has p) :
    f.load d p = HeapPage.decode p f.schema (d.read f.path (p.number * pageSize) pageSize) := by
  have hend := end_le h hp
  have hlength : (d.read f.path (p.number * pageSize) pageSize).length = pageSize := by
    rw [Disk.read, List.length_take, List.length_drop]
    omega
  unfold load readBlock
  rw [offset?_of_has hp]
  simp only [Block.ofBytes?, bind, Except.bind, hlength, dite_true]

/-! ### Overwriting a page -/

theorem writeBlock_of_has (hp : f.Has p) (b : Block) :
    f.writeBlock d p b = .ok (d.write f.path (p.number * pageSize) b.bytes) := by
  unfold writeBlock
  rw [offset?_of_has hp]
  rfl

theorem OnDisk.write (h : f.OnDisk d) (hp : f.Has p) (b : Block) :
    f.OnDisk (d.write f.path (p.number * pageSize) b.bytes) where
  storable := h.storable
  length := by
    have hend := end_le h hp
    have hlength := h.length
    rw [Disk.contents_write_self, Disk.length_overwrite (by omega)]
    omega

/-- The page that was written is read from its block. -/
theorem OnDisk.load_write (h : f.OnDisk d) (hp : f.Has p) (b : Block) :
    f.load (d.write f.path (p.number * pageSize) b.bytes) p = HeapPage.decode p f.schema b.bytes := by
  have hread := Disk.read_write d f.path (p.number * pageSize) b.bytes
  rw [b.length_bytes] at hread
  rw [(h.write hp b).load_eq hp, hread]

/-- The places of two pages do not overlap. -/
theorem places_disjoint {m n : Nat} (h : m ≠ n) :
    m * pageSize + pageSize ≤ n * pageSize ∨ n * pageSize + pageSize ≤ m * pageSize := by
  unfold pageSize
  omega

theorem OnDisk.load_write_of_ne (h : f.OnDisk d) (hp : f.Has p) (b : Block) (hne : q ≠ p) :
    f.load (d.write f.path (p.number * pageSize) b.bytes) q = f.load d q := by
  by_cases hq : f.Has q
  · have hstart := Nat.le_of_add_right_le (end_le h hp)
    have hnumber : q.number ≠ p.number := fun heq =>
      hne (PageId.mk.injEq .. ▸ ⟨hq.1.trans hp.1.symm, heq⟩)
    have hread := Disk.read_write_of_disjoint b.bytes hstart
      (by rw [b.length_bytes]; exact places_disjoint hnumber)
    rw [(h.write hp b).load_eq hq, h.load_eq hq, hread]
  · rw [load_of_not_has hq, load_of_not_has hq]

/-! ### Appending a page -/

theorem OnDisk.append (h : f.OnDisk d) : (f.append d).1.OnDisk (f.append d).2 where
  storable := h.storable
  length := by
    have hlength := h.length
    have hend : (f.numPages + 1) * pageSize = f.numPages * pageSize + Block.zero.bytes.length := by
      rw [Block.zero.length_bytes, Nat.succ_mul]
    show (f.numPages + 1) * pageSize ≤ ((d.write f.path _ _).contents f.path).length
    rw [Disk.contents_write_self, Disk.length_overwrite hlength, hend]
    exact Nat.le_max_right _ _

theorem has_append_iff : (f.append d).1.Has q ↔ f.Has q ∨ q = f.nextPage := by
  obtain ⟨table, number⟩ := q
  unfold append Has nextPage
  rw [PageId.mk.injEq, ← and_or_left, Nat.lt_succ_iff_lt_or_eq]

/-- The page that an append adds has no tuples. -/
theorem OnDisk.load_append (h : f.OnDisk d) :
    (f.append d).1.load (f.append d).2 f.nextPage = .ok (HeapPage.blank f.nextPage f.schema) := by
  have hread := Disk.read_write d f.path (f.numPages * pageSize) Block.zero.bytes
  rw [Block.zero.length_bytes] at hread
  rw [h.append.load_eq (has_append_iff.2 (Or.inr rfl))]
  exact (congrArg (HeapPage.decode f.nextPage f.schema) hread).trans (HeapPage.decode_zero _ h.storable)

theorem OnDisk.load_append_of_ne (h : f.OnDisk d) (hne : q ≠ f.nextPage) :
    (f.append d).1.load (f.append d).2 q = f.load d q := by
  by_cases hq : f.Has q
  · have hnumber : q.number ≠ f.numPages := Nat.ne_of_lt hq.2
    have hread := Disk.read_write_of_disjoint Block.zero.bytes h.length
      (by rw [Block.zero.length_bytes]; exact places_disjoint hnumber)
    rw [h.append.load_eq (has_append_iff.2 (Or.inl hq)), h.load_eq hq]
    exact congrArg (HeapPage.decode q f.schema) hread
  · have hnot : ¬ (f.append d).1.Has q := fun hhas => (has_append_iff.1 hhas).elim hq hne
    rw [load_of_not_has hnot, load_of_not_has hq]

end HeapFile

end HeapStore
