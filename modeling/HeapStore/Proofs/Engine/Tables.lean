import HeapStore.Proofs.Engine.Content

/-!
# New tables

A registration is refused for one of four causes (`Engine.Refuses`), and then it changes nothing; otherwise there is
one table more (`Op.ends_addTable_enter`).

An engine starts consistent, and registering a table keeps it so if no other table's file is at the path
(`Engine.NewPath`). The pages of the tables there are stay as they were (`Op.ends_addTable`).
-/

namespace HeapStore

namespace Catalog

/-- The catalog with one more table. -/
def enter (c : Catalog) (name : String) (fd : Descriptor) : Catalog where
  byId := c.byId.insert c.nextId ⟨name, fd⟩
  byName := c.byName.insert name c.nextId
  nextId := c.nextId + 1

variable {c c' : Catalog} {s s' : FileStore} {name : String} {fd : Descriptor} {t : TableId}

theorem tableId?_enter (other : String) :
    (c.enter name fd).tableId? other = if other = name then some c.nextId else c.tableId? other := by
  unfold tableId? enter
  simp only [Std.ExtTreeMap.getElem?_insert, Std.compare_eq_iff_eq, eq_comm (a := name)]

theorem byId_enter (t : TableId) :
    (c.enter name fd).byId[t]? = if t = c.nextId then some ⟨name, fd⟩ else c.byId[t]? := by
  unfold enter
  simp only [Std.ExtTreeMap.getElem?_insert, Std.compare_eq_iff_eq, eq_comm (a := c.nextId)]

theorem contains_byName (c : Catalog) (name : String) : c.byName.contains name = (c.tableId? name).isSome :=
  Std.ExtTreeMap.contains_eq_isSome_getElem?

theorem addTable_of_taken (s : FileStore) (path : String) (schema : Schema) (h : c.tableId? name = some t) :
    c.addTable s name path schema = .error (.tableAlreadyExists name) := by
  rw [addTable, contains_byName, h]
  rfl

theorem addTable_of_free (s : FileStore) (path : String) (schema : Schema) (h : c.tableId? name = none) :
    c.addTable s name path schema = match HeapFile.openAt s.disk path c.nextId schema with
      | .ok (f, d) => .ok (c.nextId, c.enter name s.opened.length, ⟨d, s.opened ++ [f]⟩)
      | .error cause => .error cause := by
  rw [addTable, contains_byName, h, FileStore.openFile]
  cases HeapFile.openAt s.disk path c.nextId schema with
  | error cause => rfl
  | ok opened => rfl

end Catalog

/-- A table to be registered. -/
structure NewTable where
  name : String
  path : String
  schema : Schema

namespace Engine

variable {e e' : Engine} {t : TableId}

theorem entry_start (disk : Disk) (settings : Settings) (t : TableId) :
    (start disk settings).catalog.byId[t]? = none := by simp [start]

theorem file?_start (disk : Disk) (settings : Settings) (t : TableId) :
    (start disk settings).file? t = none := by rw [file?, entry_start, Option.bind_none]

theorem consistent_start (disk : Disk) (settings : Settings) : (start disk settings).Consistent := by
  have hnone := entry_start disk settings
  have hfile := file?_start disk settings
  have hcopy : ∀ p, (start disk settings).cache.copy? p = none := fun p =>
    Cache.copy?_eq_none (by simp [start, Cache.handle?])
  have htables : (start disk settings).TablesOpen := by
    refine ⟨?_, ?_, fun t _ => hnone t⟩
    · intro t entry ht
      rw [hnone] at ht
      simp at ht
    · intro t t' f f' hf
      rw [hfile] at hf
      simp at hf
  refine ⟨htables, Cache.sound_empty _, ?_, ?_⟩
  · intro p page hpage
    rw [hcopy] at hpage
    simp at hpage
  · intro p page hpage
    rw [hcopy] at hpage
    simp at hpage

/-- The file at the path, if there can be one, is none of the tables'. -/
def NewPath (e : Engine) (path : String) : Prop :=
  ∀ t f file, e.file? t = some f → e.store.disk.target path = .ok file → f.path ≠ file

theorem newPath_start (disk : Disk) (settings : Settings) (path : String) :
    (start disk settings).NewPath path := by
  intro t f file hf
  rw [file?_start] at hf
  simp at hf

/-! ### One table more -/

/-- The causes for which a table cannot be registered. -/
inductive Refuses (e : Engine) (table : NewTable) : StorageError → Prop
  | nameTaken {t : TableId} (h : e.catalog.tableId? table.name = some t) :
      Refuses e table (.tableAlreadyExists table.name)
  | file {cause : StorageError} (h : HeapFile.Refuses e.store.disk table.path table.schema cause) :
      Refuses e table cause

/-- The engine with one more table, whose rows are in that file. -/
def enter (e : Engine) (table : NewTable) (file : List String) : Engine :=
  { e with
    catalog := e.catalog.enter table.name e.store.opened.length
    store :=
      { disk := e.store.disk.create file
        opened := e.store.opened ++ [.found e.store.disk file e.catalog.nextId table.schema] } }

/-- In the second state there is one table more. Its file `f` is at a path of its own. -/
structure Registers (entry : TableEntry) (f : HeapFile) (e e' : Engine) : Prop where
  entries : ∀ t, e'.catalog.byId[t]? = if t = e.catalog.nextId then some entry else e.catalog.byId[t]?
  next : e'.catalog.nextId = e.catalog.nextId + 1
  opened : e'.store.file? entry.file = some f
  others : ∀ fd g, e.store.file? fd = some g → e'.store.file? fd = some g
  contents : ∀ file, e'.store.disk.contents file = e.store.disk.contents file
  table : f.table = e.catalog.nextId
  onDisk : f.OnDisk e.store.disk
  path : ∀ t g, e.file? t = some g → g.path ≠ f.path

namespace Registers

variable {entry : TableEntry} {f g : HeapFile}

theorem file?_eq (h : Registers entry f e e') (he : e.TablesOpen) (t : TableId) :
    e'.file? t = if t = e.catalog.nextId then some f else e.file? t := by
  unfold file?
  rw [h.entries]
  split
  · exact h.opened
  · cases ht : e.catalog.byId[t]? with
    | none => rfl
    | some old =>
      obtain ⟨g, hg, -⟩ := he.opened t old ht
      exact (h.others old.file g hg).trans hg.symm

/-- The tables there are keep their files. -/
theorem file?_of_some (h : Registers entry f e e') (he : e.TablesOpen) (hg : e.file? t = some g) :
    e'.file? t = some g := by
  have hne : t ≠ e.catalog.nextId := by
    rintro rfl
    rw [file?, he.numbered _ (Nat.le_refl _), Option.bind_none] at hg
    simp at hg
  rw [h.file?_eq he, if_neg hne, hg]

theorem tablesOpen (h : Registers entry f e e') (he : e.TablesOpen) : e'.TablesOpen := by
  refine ⟨?_, ?_, ?_⟩
  · intro t entry' ht
    rw [h.entries] at ht
    split at ht
    · next heq =>
      obtain rfl := Option.some.inj ht
      exact ⟨f, h.opened, h.table.trans heq.symm, h.onDisk.of_contents_eq (h.contents f.path)⟩
    · obtain ⟨g, hg, hgtable, hdisk⟩ := he.opened t entry' ht
      exact ⟨g, h.others _ g hg, hgtable, hdisk.of_contents_eq (h.contents g.path)⟩
  · intro t t' g g' hg hg' hpath
    rw [h.file?_eq he] at hg hg'
    split at hg <;> split at hg'
    · next heq heq' => exact heq.trans heq'.symm
    · obtain rfl := Option.some.inj hg
      exact absurd hpath.symm (h.path t' g' hg')
    · obtain rfl := Option.some.inj hg'
      exact absurd hpath (h.path t g hg)
    · exact he.paths t t' g g' hg hg' hpath
  · intro t ht
    rw [h.next] at ht
    have hlt : e.catalog.nextId < t := ht
    rw [h.entries, if_neg (Nat.ne_of_gt hlt)]
    exact he.numbered t (Nat.le_of_lt hlt)

theorem stored_eq (h : Registers entry f e e') (he : e.TablesOpen) {p : PageId}
    (hp : e.file? p.table ≠ none) : e'.stored p = e.stored p := by
  obtain ⟨g, hg⟩ := Option.ne_none_iff_exists'.1 hp
  rw [he.stored_eq hg, (h.tablesOpen he).stored_eq (h.file?_of_some he hg)]
  exact HeapFile.load_of_contents_eq (h.contents g.path)

theorem consistent (h : Registers entry f e e') (he : e.Consistent) (hcache : e'.cache = e.cache) :
    e'.Consistent := by
  refine ⟨h.tablesOpen he.toTablesOpen, hcache ▸ he.sound, ?_, ?_⟩
  · intro p page hcopy
    rw [hcache] at hcopy
    obtain ⟨hwf, g, hg, hfits⟩ := he.fits p page hcopy
    exact ⟨hwf, g, h.file?_of_some he.toTablesOpen hg, hfits⟩
  · intro p page hcopy hclean
    rw [hcache] at hcopy
    obtain ⟨-, g, hg, -⟩ := he.fits p page hcopy
    have hopen : e.file? p.table ≠ none := by simp [hg]
    rw [h.stored_eq he.toTablesOpen hopen]
    exact he.clean p page hcopy hclean

end Registers

end Engine

open Engine

theorem Op.run_addTable (e : Engine) (name path : String) (schema : Schema) :
    (addTable name path schema).run.run e = match e.catalog.addTable e.store name path schema with
      | .ok (t, catalog, store) => (.ok t, { e with catalog, store })
      | .error cause => (.error cause, e) := by
  apply Ends.run_eq
  unfold addTable
  rw [ends_bind, ends_get, ends_bind, ends_liftExcept]
  refine ⟨?_, fun cause h => by rw [h]⟩
  rintro ⟨t, catalog, store⟩ h
  rw [ends_bind, ends_set, ends_pure, h]

/-- A registration either enters the table under the next number or gives a cause and changes nothing. -/
theorem Op.ends_addTable_enter (e : Engine) (table : NewTable) :
    Ends (addTable table.name table.path table.schema) e
      (fun t e' => t = e.catalog.nextId ∧ (∀ cause, ¬ e.Refuses table cause) ∧
        ∃ file, e.store.disk.target table.path = .ok file ∧ e' = e.enter table file)
      fun cause e' => e.Refuses table cause ∧ e' = e := by
  unfold Ends
  rw [run_addTable]
  cases hname : e.catalog.tableId? table.name with
  | some taken =>
    rw [Catalog.addTable_of_taken _ _ _ hname]
    exact ⟨.nameTaken hname, rfl⟩
  | none =>
    rw [Catalog.addTable_of_free _ _ _ hname]
    rcases HeapFile.openAt_cases e.store.disk table.path e.catalog.nextId table.schema with
      ⟨file, htarget, hfree, hopen⟩ | ⟨cause, hrefuses, hopen⟩
    · rw [hopen]
      refine ⟨rfl, fun cause hrefuses => ?_, file, htarget, rfl⟩
      cases hrefuses with
      | nameTaken h => simp [hname] at h
      | file h => exact hfree cause h
    · rw [hopen]
      exact ⟨.file hrefuses, rfl⟩

/-- A registration opens a file of its own for the table, and fails without changing anything. -/
theorem Op.ends_addTable_registers {e : Engine} (name : String) {path : String} (schema : Schema)
    (hnew : e.NewPath path) :
    Ends (addTable name path schema) e
      (fun _ e' => ∃ entry f, Registers entry f e e' ∧ e.store.disk.target path = .ok f.path ∧
        e'.cache = e.cache ∧ e'.locks = e.locks ∧ e'.store.disk = e.store.disk.create f.path)
      fun _ e' => e' = e := by
  refine (ends_addTable_enter e ⟨name, path, schema⟩).mono ?_ fun _ _ h => h.2
  rintro _ _ ⟨-, hfree, file, htarget, rfl⟩
  have hstorable : schema.checkStorable = .ok () := by
    cases h : schema.checkStorable with
    | ok => rfl
    | error cause => exact absurd (.file (.notStorable h)) (hfree cause)
  have hregisters : Registers ⟨name, e.store.opened.length⟩ (.found e.store.disk file e.catalog.nextId schema) e
      (e.enter ⟨name, path, schema⟩ file) :=
    { entries := Catalog.byId_enter
      next := rfl
      opened := List.getElem?_concat_length
      others := fun fd g hg => (List.getElem?_append_left (List.getElem?_eq_some_iff.1 hg).1).trans hg
      contents := Disk.contents_create file
      table := rfl
      onDisk := HeapFile.onDisk_found hstorable
      path := fun t g hg => hnew t g file hg htarget }
  exact ⟨_, _, hregisters, htarget, rfl, rfl, rfl⟩

/-- A registration that fails changes nothing. -/
theorem Op.ends_addTable {e : Engine} (he : e.Consistent) (name : String) {path : String} (schema : Schema)
    (hnew : e.NewPath path) :
    Ends (addTable name path schema) e
      (fun _ e' => e'.Consistent ∧ e'.cache = e.cache ∧ e'.locks = e.locks ∧
        ∀ p, e.file? p.table ≠ none → e'.content p = e.content p)
      fun _ e' => e' = e := by
  refine (ends_addTable_registers name schema hnew).mono ?_ fun _ _ h => h
  rintro _ e' ⟨entry, f, hregisters, -, hcache, hlocks, -⟩
  refine ⟨hregisters.consistent he hcache, hcache, hlocks, fun p hp => ?_⟩
  exact content_congr (by rw [hcache]) (hregisters.stored_eq he.toTablesOpen hp)

end HeapStore
