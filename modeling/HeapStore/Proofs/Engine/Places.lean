import HeapStore.Proofs.Engine.Faults
import HeapStore.Proofs.Engine.Updates

/-!
# Places on the disk

Each page of a table has its place in the table's file (`Engine.diskBytes?`). Writing a page puts it to its place
(`Engine.Puts`) and leaves the places of all other pages as they are, if every table has a file of its own
(`TablesOpen.puts`). So do reading (`TablesOpen.diskBytes?_of_alike`) and appending
(`TablesOpen.diskBytes?_appended`).
-/

namespace HeapStore

namespace Engine

/-- What stands on the disk at the place of a page. -/
def diskBytes? (e : Engine) (p : PageId) : Option (List UInt8) :=
  match e.catalog.file p.table with
  | .ok fd => (e.store.file? fd).map fun f => e.store.disk.read f.path (p.number * pageSize) pageSize
  | .error _ => none

/-- The store after a page of an engine was written to the file of its table. -/
inductive Puts (e : Engine) (page : HeapPage) : FileStore → Prop
  | intro {fd : Descriptor} {f : HeapFile} (hfd : e.catalog.file page.id.table = .ok fd)
      (hf : e.store.file? fd = some f) (hp : f.Has page.id) : Puts e page (e.store.put fd f page.id page.block)

variable {e e' : Engine} {p q : PageId} {page : HeapPage} {t : TableId} {entry : TableEntry} {fd : Descriptor}
  {f : HeapFile} {store : FileStore} {bytes : List UInt8}

theorem file_of_entry (ht : e.catalog.byId[t]? = some entry) : e.catalog.file t = .ok entry.file := by
  rw [Catalog.file, Catalog.entry, ht]
  rfl

theorem exists_entry_of_file (hfd : e.catalog.file t = .ok fd) :
    ∃ entry : TableEntry, e.catalog.byId[t]? = some entry ∧ entry.file = fd := by
  cases ht : e.catalog.byId[t]? with
  | none =>
    rw [Catalog.file, Catalog.entry, ht] at hfd
    simp [bind, Except.bind] at hfd
  | some entry => exact ⟨entry, rfl, Except.ok.inj ((file_of_entry ht).symm.trans hfd)⟩

theorem file?_of_file (hfd : e.catalog.file t = .ok fd) : e.file? t = e.store.file? fd := by
  obtain ⟨entry, ht, rfl⟩ := exists_entry_of_file hfd
  exact file?_of_entry ht

theorem diskBytes?_eq (p : PageId) : e.diskBytes? p =
    (e.path? p.table).map fun file => e.store.disk.read file (p.number * pageSize) pageSize := by
  unfold diskBytes? path? file?
  cases ht : e.catalog.byId[p.table]? with
  | none =>
    rw [Catalog.file, Catalog.entry, ht]
    rfl
  | some entry =>
    rw [file_of_entry ht, Option.bind_some, Option.map_map]
    rfl

theorem diskBytes?_of_file (hf : e.file? p.table = some f) :
    e.diskBytes? p = some (e.store.disk.read f.path (p.number * pageSize) pageSize) := by
  rw [diskBytes?_eq, path?, hf]
  rfl

theorem SameFiles.diskBytes?_eq (h : e.SameFiles e') (hread : ∀ f, e.file? p.table = some f →
    e'.store.disk.read f.path (p.number * pageSize) pageSize =
      e.store.disk.read f.path (p.number * pageSize) pageSize) : e'.diskBytes? p = e.diskBytes? p := by
  rw [Engine.diskBytes?_eq, Engine.diskBytes?_eq, h.path?, Engine.path?]
  cases hf : e.file? p.table with
  | none => rfl
  | some f => exact congrArg some (hread f hf)

/-! ### Reading -/

theorem TablesOpen.diskBytes?_of_alike (he : e.TablesOpen) (hcatalog : e'.catalog = e.catalog)
    (hs : e.store.Alike e'.store) (p : PageId) : e'.diskBytes? p = e.diskBytes? p := by
  obtain ⟨hsame, -⟩ := he.of_alike hcatalog hs
  exact hsame.diskBytes?_eq fun f _ => by rw [hs.disk]

/-! ### Writing -/

theorem Puts.diskBytes? (h : e.Puts page store) (hcatalog : e'.catalog = e.catalog) (hstore : e'.store = store) :
    e'.diskBytes? page.id = some page.block.bytes := by
  cases h with
  | @intro fd f hfd hf =>
  have hread := Disk.read_write e.store.disk f.path (page.id.number * pageSize) page.block.bytes
  rw [page.block.length_bytes] at hread
  have hopen := FileStore.file?_put hf page.id page.block fd
  rw [if_pos rfl] at hopen
  unfold Engine.diskBytes?
  rw [hcatalog, hfd, hstore]
  dsimp only
  rw [hopen]
  exact congrArg some hread

theorem Puts.exists_file (h : e.Puts page store) : ∃ f, e.file? page.id.table = some f ∧ f.Has page.id := by
  obtain ⟨hfd, hf, hhas⟩ := h
  exact ⟨_, (file?_of_file hfd).trans hf, hhas⟩

theorem TablesOpen.puts (he : e.TablesOpen) (h : e.Puts page store) (hcatalog : e'.catalog = e.catalog)
    (hstore : e'.store = store) : e.SameFiles e' ∧ e'.TablesOpen ∧
      ∀ q, q ≠ page.id → e'.diskBytes? q = e.diskBytes? q := by
  obtain ⟨hfd, hf, hhas⟩ := h
  obtain ⟨entry, ht, rfl⟩ := exists_entry_of_file hfd
  obtain ⟨hsame, htables⟩ := he.sameFiles_put ht hf hhas page.block hcatalog hstore
  have hfile := (file?_of_entry ht).trans hf
  have hend := HeapFile.end_le (he.onDisk hfile) hhas
  refine ⟨hsame, htables, fun q hq => hsame.diskBytes?_eq fun g hg => ?_⟩
  have hne : (⟨g.table, q.number⟩ : PageId) ≠ page.id := fun heq => hq (heq ▸ by rw [he.table_eq hg])
  rw [hstore]
  exact he.read_write_of_ne hfile (by omega) page.block hg hne

/-! ### Appending -/

/-- A page that the file has stays in its place. -/
theorem TablesOpen.diskBytes?_appended (he : e.TablesOpen) (hfd : e.catalog.file t = .ok fd)
    (hf : e.store.file? fd = some f) {g : HeapFile} (hg : e.file? q.table = some g) (hq : g.Has q) :
    (∃ g', (e.appended fd f).file? q.table = some g' ∧ g'.Has q) ∧
      (e.appended fd f).diskBytes? q = e.diskBytes? q := by
  obtain ⟨entry, ht, rfl⟩ := exists_entry_of_file hfd
  have hfile := (file?_of_entry ht).trans hf
  have hnow := he.file?_appended (f := f) ht q.table
  by_cases heq : q.table = t
  · rw [heq] at hg
    obtain rfl := Option.some.inj (hfile.symm.trans hg)
    rw [if_pos heq] at hnow
    have hend := HeapFile.end_le (he.onDisk hfile) hq
    have hlast := (he.onDisk hfile).length
    refine ⟨⟨_, hnow, HeapFile.has_append_iff.2 (Or.inl hq)⟩, ?_⟩
    rw [diskBytes?_of_file hnow, diskBytes?_of_file (heq ▸ hfile)]
    refine congrArg some (Disk.read_write_of_disjoint _ hlast ?_)
    rw [Block.length_bytes]
    exact HeapFile.places_disjoint (Nat.ne_of_lt hq.2)
  · rw [if_neg heq] at hnow
    refine ⟨⟨g, hnow.trans hg, hq⟩, ?_⟩
    rw [diskBytes?_of_file (hnow.trans hg), diskBytes?_of_file hg, Disk.read, Disk.read,
      he.contents_appended hfile hg heq]

end Engine

namespace Op

open Engine

/-- A page that is written back stands in its place then and counts as unchanged; a failure changes nothing. -/
theorem ends_writeBack_any (h : Handle) (e : Engine) :
    Ends (writeBack h) e
      (fun _ e' => ∃ page store, e.cache.page? h = some page ∧ e.Puts page store ∧
        e' = { e with store, cache := e.cache.setPage h page.markClean })
      fun cause e' => cause.isPageFault = true ∧ e' = e := by
  unfold writeBack setPage modifyCache
  simp only [ends_bind, ends_onFiles, ends_modify]
  apply (ends_page_any h e).mono
  · rintro page e₁ ⟨hpage, rfl⟩
    apply (ends_tableFile_any page.id.table _).mono
    · rintro fd e₂ ⟨hfd, rfl⟩
      apply (FileOp.ends_writeBlock_any fd page.id page.block _).mono
      · rintro - - ⟨f, hf, hhas, rfl⟩
        exact ⟨page, _, hpage, .intro hfd hf hhas, rfl⟩
      · rintro cause s ⟨hcause, rfl⟩
        exact ⟨hcause, rfl⟩
    · exact fun cause _ h => h
  · exact fun cause _ h => h

end Op

end HeapStore
