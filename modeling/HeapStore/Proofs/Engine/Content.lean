import HeapStore.Engine.Pages
import HeapStore.Proofs.Cache.Copies
import HeapStore.Proofs.File.Operations

/-!
# What an engine stores

The content of a page is what its cached copy holds, or, if the page is not cached, what its file holds
(`Engine.content`). An engine is `Consistent` if every table has an open file of its own and every cached
page is one of its table's and well-formed; and if a copy that counts as unchanged holds what the file
holds.

Most of what happens in an engine leaves all contents as they are (`Engine.Keeps`). This module shows it of
what does not write to a disk: counting a read, changes of the locks, accesses and removals in the cache
(`Consistent.keeps_cache`) and loading a page (`Consistent.keeps_load`).
-/

namespace HeapStore

namespace Op

variable {α : Type} {e : Engine} {err : StorageError → Engine → Prop}

theorem ends_onFiles {op : FileOp α} {ok : α → Engine → Prop} :
    Ends (onFiles op) e ok err ↔
      Ends op e.store (fun a s => ok a { e with store := s }) fun cause s => err cause { e with store := s } := by
  unfold onFiles
  rw [ends_bind, ends_get]
  unfold Ends
  cases op.run.run e.store with | mk result s =>
  cases result <;> rfl

theorem ends_tableFile {t : TableId} {entry : TableEntry} (ht : e.catalog.byId[t]? = some entry)
    {ok : Descriptor → Engine → Prop} : Ends (tableFile t) e ok err ↔ ok entry.file e := by
  unfold tableFile Catalog.file Catalog.entry
  rw [ends_bind, ends_get, ht]
  exact Iff.rfl

theorem ends_tableFile_of_none {t : TableId} (ht : e.catalog.byId[t]? = none)
    {ok : Descriptor → Engine → Prop} : Ends (tableFile t) e ok err ↔ err (.tableNotFound t) e := by
  unfold tableFile Catalog.file Catalog.entry
  rw [ends_bind, ends_get, ht]
  exact Iff.rfl

theorem ends_page {h : Handle} {page : HeapPage} (hpage : e.cache.page? h = some page)
    {ok : HeapPage → Engine → Prop} : Ends (Op.page h) e ok err ↔ ok page e := by
  unfold Op.page
  rw [ends_bind, ends_get, hpage]
  exact Iff.rfl

end Op

/-! ### Contents -/

namespace Engine

/-- The open file of a table. -/
def file? (e : Engine) (t : TableId) : Option HeapFile :=
  e.catalog.byId[t]?.bind fun entry => e.store.file? entry.file

/-- The path of a table's file. -/
def path? (e : Engine) (t : TableId) : Option (List String) := (e.file? t).map (·.path)

/-- How long a file on the disk is. -/
def fileLength (e : Engine) (file : List String) : Nat := (e.store.disk.contents file).length

/-- What a page's file holds: the page that is read from it, whether or not the page is cached. -/
def stored (e : Engine) (p : PageId) : Except StorageError HeapPage :=
  let read : Op HeapPage := do Op.onFiles (FileOp.readPage (← Op.tableFile p.table) p)
  (read.run.run e).1

/-- The rows of a page: those of its cached copy, or else those that its file holds. -/
def content (e : Engine) (p : PageId) : Except StorageError (List (Option (List Value))) :=
  match e.cache.copy? p with
  | some page => .ok page.rows
  | none => (e.stored p).map (·.rows)

/-- Is this a page of its table that its file could hold? -/
def Fits (e : Engine) (p : PageId) (page : HeapPage) : Prop :=
  page.WellFormed ∧ ∃ f, e.file? p.table = some f ∧ page.schema = f.schema ∧ f.Has p

/-- Every table has an open file of its own. -/
structure TablesOpen (e : Engine) : Prop where
  opened : ∀ t entry, e.catalog.byId[t]? = some entry →
    ∃ f, e.store.file? entry.file = some f ∧ f.table = t ∧ f.OnDisk e.store.disk
  paths : ∀ t t' f f', e.file? t = some f → e.file? t' = some f' → f.path = f'.path → t = t'
  numbered : ∀ t, e.catalog.nextId ≤ t → e.catalog.byId[t]? = none

structure Consistent (e : Engine) : Prop extends TablesOpen e where
  sound : e.cache.Sound
  fits : ∀ p page, e.cache.copy? p = some page → e.Fits p page
  /-- A copy that counts as unchanged holds what the file holds. -/
  clean : ∀ p page, e.cache.copy? p = some page → page.dirtiedBy = none →
    (e.stored p).map (·.rows) = .ok page.rows

variable {e e' : Engine} {p q : PageId} {page : HeapPage} {h : Handle} {f g : HeapFile} {t : TableId}
  {entry : TableEntry}

/-- Only the catalog and the files matter to what is read from a file. -/
theorem stored_def (e : Engine) (p : PageId) :
    e.stored p = match e.catalog.file p.table with
      | .ok fd => ((FileOp.readPage fd p).run.run e.store).1
      | .error cause => .error cause := by
  apply Ends.result_eq
  unfold Op.tableFile
  rw [ends_bind, ends_bind, ends_get]
  cases e.catalog.file p.table with
  | error cause => exact rfl
  | ok fd =>
    rw [ends_liftExcept]
    refine ⟨fun fd' hfd => ?_, by simp⟩
    obtain rfl := Except.ok.inj hfd
    rw [Op.ends_onFiles]
    exact (Ends.self _ _).mono (fun _ _ h => congrArg Prod.fst h) fun _ _ h => congrArg Prod.fst h

theorem stored_congr (hcatalog : e'.catalog = e.catalog) (hstore : e'.store = e.store) (p : PageId) :
    e'.stored p = e.stored p := by
  rw [stored_def, stored_def, hcatalog, hstore]

theorem content_congr (hcopy : e'.cache.copy? p = e.cache.copy? p) (hstored : e'.stored p = e.stored p) :
    e'.content p = e.content p := by
  rw [content, content, hcopy, hstored]

theorem content_of_copy (hcopy : e.cache.copy? p = some page) : e.content p = .ok page.rows := by
  rw [content, hcopy]

theorem content_of_not_cached (hcopy : e.cache.copy? p = none) :
    e.content p = (e.stored p).map (·.rows) := by
  rw [content, hcopy]

theorem file?_of_entry (ht : e.catalog.byId[t]? = some entry) : e.file? t = e.store.file? entry.file := by
  rw [file?, ht, Option.bind_some]

theorem TablesOpen.exists_entry (he : e.TablesOpen) (hf : e.file? t = some f) :
    ∃ entry : TableEntry, e.catalog.byId[t]? = some entry ∧ e.store.file? entry.file = some f ∧ f.table = t ∧
      f.OnDisk e.store.disk := by
  obtain ⟨entry, hentry, hfile⟩ := Option.bind_eq_some_iff.1 hf
  obtain ⟨f', hf', htable, hdisk⟩ := he.opened t entry hentry
  rw [hfile] at hf'
  obtain rfl := Option.some.inj hf'
  exact ⟨entry, hentry, hfile, htable, hdisk⟩

theorem TablesOpen.onDisk (he : e.TablesOpen) (hf : e.file? t = some f) : f.OnDisk e.store.disk := by
  obtain ⟨-, -, -, -, hdisk⟩ := he.exists_entry hf
  exact hdisk

theorem TablesOpen.table_eq (he : e.TablesOpen) (hf : e.file? t = some f) : f.table = t := by
  obtain ⟨-, -, -, htable, -⟩ := he.exists_entry hf
  exact htable

theorem TablesOpen.stored_eq (he : e.TablesOpen) (hf : e.file? p.table = some f) :
    e.stored p = f.load e.store.disk p := by
  obtain ⟨entry, hentry, hfile, -⟩ := he.exists_entry hf
  apply Ends.result_eq
  rw [ends_bind, Op.ends_tableFile hentry, Op.ends_onFiles]
  exact (FileOp.ends_readPage hfile p).mono (fun page s h => h.1) fun cause s h => h.1

theorem TablesOpen.entry_eq_none (he : e.TablesOpen) (hf : e.file? t = none) : e.catalog.byId[t]? = none := by
  cases hentry : e.catalog.byId[t]? with
  | none => rfl
  | some entry =>
    obtain ⟨f, hfile, -⟩ := he.opened t entry hentry
    rw [file?_of_entry hentry, hfile] at hf
    simp at hf

theorem TablesOpen.stored_of_none (he : e.TablesOpen) (hf : e.file? p.table = none) :
    e.stored p = .error (.tableNotFound p.table) := by
  apply Ends.result_eq
  rw [ends_bind, Op.ends_tableFile_of_none (he.entry_eq_none hf)]

theorem TablesOpen.descriptor_inj (he : e.TablesOpen) {t' : TableId} {entry' : TableEntry}
    (ht : e.catalog.byId[t]? = some entry) (ht' : e.catalog.byId[t']? = some entry')
    (h : entry.file = entry'.file) : t = t' := by
  obtain ⟨f, hf, htable, -⟩ := he.opened t entry ht
  obtain ⟨f', hf', htable', -⟩ := he.opened t' entry' ht'
  rw [h, hf'] at hf
  obtain rfl := Option.some.inj hf
  exact htable.symm.trans htable'

theorem TablesOpen.path?_inj (he : e.TablesOpen) {t' : TableId} {file : List String} (ht : e.path? t = some file)
    (ht' : e.path? t' = some file) : t = t' := by
  obtain ⟨f, hf, hpath⟩ := Option.map_eq_some_iff.1 ht
  obtain ⟨f', hf', hpath'⟩ := Option.map_eq_some_iff.1 ht'
  exact he.paths t t' f f' hf hf' (hpath.trans hpath'.symm)

theorem TablesOpen.file?_setFile (he : e.TablesOpen) (ht : e.catalog.byId[t]? = some entry)
    (hcatalog : e'.catalog = e.catalog) {disk : Disk}
    (hstore : e'.store = { e.store.setFile entry.file g with disk }) (t' : TableId) :
    e'.file? t' = if t' = t then some g else e.file? t' := by
  obtain ⟨f, hf, -⟩ := he.opened t entry ht
  unfold file?
  rw [hcatalog]
  cases ht' : e.catalog.byId[t']? with
  | none =>
    have hne : t' ≠ t := by
      rintro rfl
      rw [ht] at ht'
      simp at ht'
    rw [if_neg hne]
    rfl
  | some entry' =>
    have hset : e'.store.file? entry'.file = (e.store.setFile entry.file g).file? entry'.file := by
      rw [hstore]
      rfl
    rw [Option.bind_some, Option.bind_some, hset, FileStore.file?_setFile hf]
    by_cases heq : t' = t
    · subst heq
      rw [ht] at ht'
      obtain rfl := Option.some.inj ht'
      rw [if_pos rfl, if_pos rfl]
    · have hne : entry'.file ≠ entry.file := fun hfd => heq (he.descriptor_inj ht' ht hfd)
      rw [if_neg heq, if_neg hne]

/-! ### Files that differ in what was counted -/

/-- The same tables with the same files, whatever was counted. -/
structure SameFiles (e e' : Engine) : Prop where
  catalog : e'.catalog = e.catalog
  files : ∀ t, (e'.file? t).map HeapFile.uncounted = (e.file? t).map HeapFile.uncounted

theorem TablesOpen.withCache (he : e.TablesOpen) (c : Cache) : ({ e with cache := c } : Engine).TablesOpen :=
  ⟨he.opened, he.paths, he.numbered⟩

theorem SameFiles.refl (e : Engine) : e.SameFiles e := ⟨rfl, fun _ => rfl⟩

theorem SameFiles.withCache (e : Engine) (c : Cache) : e.SameFiles { e with cache := c } :=
  ⟨rfl, fun _ => rfl⟩

theorem SameFiles.trans {e'' : Engine} (h : e.SameFiles e') (h' : e'.SameFiles e'') : e.SameFiles e'' :=
  ⟨h'.catalog.trans h.catalog, fun t => (h'.files t).trans (h.files t)⟩

theorem SameFiles.exists_file (h : e.SameFiles e') (hf : e.file? t = some f) :
    ∃ f', e'.file? t = some f' ∧ f'.uncounted = f.uncounted := by
  have hfiles := h.files t
  rw [hf, Option.map_some] at hfiles
  exact Option.map_eq_some_iff.1 hfiles

theorem SameFiles.exists_file' (h : e.SameFiles e') (hf : e'.file? t = some f) :
    ∃ f', e.file? t = some f' ∧ f'.uncounted = f.uncounted := by
  have hfiles := h.files t
  rw [hf, Option.map_some] at hfiles
  exact Option.map_eq_some_iff.1 hfiles.symm

theorem SameFiles.file?_eq_none (h : e.SameFiles e') (hf : e.file? t = none) : e'.file? t = none := by
  have hfiles := h.files t
  rw [hf, Option.map_none] at hfiles
  exact Option.map_eq_none_iff.1 hfiles

theorem SameFiles.path? (h : e.SameFiles e') (t : TableId) : e'.path? t = e.path? t := by
  have hpaths := congrArg (Option.map HeapFile.path) (h.files t)
  rwa [Option.map_map, Option.map_map] at hpaths

theorem SameFiles.fits (h : e.SameFiles e') (hfits : e.Fits p page) : e'.Fits p page := by
  obtain ⟨hpage, f, hf, hschema, hhas⟩ := hfits
  obtain ⟨f', hf', heq⟩ := h.exists_file hf
  obtain ⟨htable, hschema', -, hpages⟩ := HeapFile.uncounted_eq_iff.1 heq
  exact ⟨hpage, f', hf', hschema.trans hschema'.symm, hhas.1.trans htable.symm, hpages ▸ hhas.2⟩

theorem SameFiles.tablesOpen (h : e.SameFiles e') (he : e.TablesOpen)
    (hdisk : ∀ t f, e.file? t = some f → f.OnDisk e'.store.disk) : e'.TablesOpen where
  opened t entry ht := by
    rw [h.catalog] at ht
    obtain ⟨f, hf, htable, -⟩ := he.opened t entry ht
    have hfile : e.file? t = some f := (file?_of_entry ht).trans hf
    obtain ⟨f', hf', heq⟩ := h.exists_file hfile
    obtain ⟨htable', -⟩ := HeapFile.uncounted_eq_iff.1 heq
    rw [file?_of_entry (h.catalog ▸ ht)] at hf'
    exact ⟨f', hf', htable'.trans htable, (hdisk t f hfile).of_uncounted_eq heq.symm⟩
  paths t t' f f' hf hf' hpath := by
    obtain ⟨g, hg, heq⟩ := h.exists_file' hf
    obtain ⟨g', hg', heq'⟩ := h.exists_file' hf'
    obtain ⟨-, -, hp, -⟩ := HeapFile.uncounted_eq_iff.1 heq
    obtain ⟨-, -, hp', -⟩ := HeapFile.uncounted_eq_iff.1 heq'
    exact he.paths t t' g g' hg hg' (hp.trans (hpath.trans hp'.symm))
  numbered t ht := by
    rw [h.catalog] at ht ⊢
    exact he.numbered t ht

/-- The files hold the same page if it is read alike from both disks. -/
theorem SameFiles.stored_eq (h : e.SameFiles e') (he : e.TablesOpen) (he' : e'.TablesOpen)
    (hload : ∀ f, e.file? p.table = some f → f.load e'.store.disk p = f.load e.store.disk p) :
    e'.stored p = e.stored p := by
  cases hf : e.file? p.table with
  | none => rw [he.stored_of_none hf, he'.stored_of_none (h.file?_eq_none hf)]
  | some f =>
    obtain ⟨f', hf', heq⟩ := h.exists_file hf
    rw [he.stored_eq hf, he'.stored_eq hf', HeapFile.load_eq_of_uncounted_eq heq, hload f hf]

/-! ### Lengths of files -/

/-- The tables have their files where they had them, and no file got longer or shorter. -/
structure SameLengths (e e' : Engine) : Prop where
  path? : ∀ t, e'.path? t = e.path? t
  fileLength : ∀ file, e'.fileLength file = e.fileLength file

/-- The file of `p` is long enough now for this page to be its last one. It got no longer than that, and no other
file got longer or shorter. -/
structure Lengthens (p : PageId) (e e' : Engine) : Prop where
  path? : ∀ t, e'.path? t = e.path? t
  fileLength : ∃ file, e.path? p.table = some file ∧ ∀ other, e'.fileLength other =
    if other = file then max (e.fileLength file) ((p.number + 1) * pageSize) else e.fileLength other

theorem SameLengths.trans {e'' : Engine} (h : e.SameLengths e') (h' : e'.SameLengths e'') : e.SameLengths e'' :=
  ⟨fun t => (h'.path? t).trans (h.path? t), fun file => (h'.fileLength file).trans (h.fileLength file)⟩

theorem Lengthens.trans_same {e'' : Engine} (h : Lengthens p e e') (h' : e'.SameLengths e'') : Lengthens p e e'' := by
  obtain ⟨file, hfile, hlength⟩ := h.fileLength
  exact ⟨fun t => (h'.path? t).trans (h.path? t), file, hfile, fun other => (h'.fileLength other).trans (hlength other)⟩

theorem SameLengths.trans_lengthens {e'' : Engine} (h : e.SameLengths e') (h' : Lengthens p e' e'') :
    Lengthens p e e'' := by
  obtain ⟨file, hfile, hlength⟩ := h'.fileLength
  refine ⟨fun t => (h'.path? t).trans (h.path? t), file, (h.path? p.table).symm.trans hfile, fun other => ?_⟩
  rw [hlength, h.fileLength, h.fileLength]

/-! ### Changes of state that change no content -/

/-- From one consistent state to another with the same tables, the same contents and files of the same lengths. A page
counts as changed in the second only if it was cached in this form in the first. -/
structure Keeps (e e' : Engine) : Prop extends SameFiles e e' where
  consistent : e'.Consistent
  content : ∀ p, e'.content p = e.content p
  dirty : ∀ p page, e'.cache.copy? p = some page → page.dirtiedBy ≠ none → e.cache.copy? p = some page
  fileLength : ∀ file, e'.fileLength file = e.fileLength file

theorem Keeps.sameLengths (h : e.Keeps e') : e.SameLengths e' := ⟨h.toSameFiles.path?, h.fileLength⟩

theorem Consistent.keeps_refl (he : e.Consistent) : e.Keeps e :=
  ⟨.refl e, he, fun _ => rfl, fun _ _ hcopy _ => hcopy, fun _ => rfl⟩

theorem Keeps.trans {e'' : Engine} (h : e.Keeps e') (h' : e'.Keeps e'') : e.Keeps e'' :=
  ⟨h.toSameFiles.trans h'.toSameFiles, h'.consistent, fun p => (h'.content p).trans (h.content p),
    fun p page hcopy hdirty => h.dirty p page (h'.dirty p page hcopy hdirty) hdirty,
    fun file => (h'.fileLength file).trans (h.fileLength file)⟩

/-- Nothing but the catalog, the files and the cache is part of what is stored. -/
theorem Consistent.keeps_of_same_store (he : e.Consistent) (hcatalog : e'.catalog = e.catalog)
    (hstore : e'.store = e.store) (hcache : e'.cache = e.cache) : e.Keeps e' := by
  have hstored := stored_congr hcatalog hstore
  have hsame : e.SameFiles e' := ⟨hcatalog, fun t => by rw [file?, file?, hcatalog, hstore]⟩
  have htables : e'.TablesOpen := hsame.tablesOpen he.toTablesOpen fun t f hf => by
    rw [hstore]
    exact he.onDisk hf
  have hconsistent : e'.Consistent := by
    refine ⟨htables, hcache ▸ he.sound, ?_, ?_⟩
    · intro p page hcopy
      exact hsame.fits (he.fits p page (hcache ▸ hcopy))
    · intro p page hcopy hclean
      rw [hstored]
      exact he.clean p page (hcache ▸ hcopy) hclean
  exact ⟨hsame, hconsistent, fun p => content_congr (by rw [hcache]) (hstored p), fun p page hcopy _ => hcache ▸ hcopy,
    fun file => by rw [fileLength, fileLength, hstore]⟩

theorem Consistent.keeps_locks (he : e.Consistent) (locks : LockTable) : e.Keeps { e with locks } :=
  he.keeps_of_same_store rfl rfl rfl

/-- Counting what is read does not change what the files hold. -/
theorem TablesOpen.of_alike (he : e.TablesOpen) (hcatalog : e'.catalog = e.catalog) (hs : e.store.Alike e'.store) :
    e.SameFiles e' ∧ e'.TablesOpen ∧ ∀ p, e'.stored p = e.stored p := by
  have hsame : e.SameFiles e' := by
    refine ⟨hcatalog, ?_⟩
    intro t
    unfold file?
    rw [hcatalog]
    cases e.catalog.byId[t]? with
    | none => rfl
    | some entry => exact hs.files entry.file
  have htables : e'.TablesOpen := hsame.tablesOpen he fun t f hf => by
    rw [hs.disk]
    exact he.onDisk hf
  exact ⟨hsame, htables, fun p => hsame.stored_eq he htables fun f _ => by rw [hs.disk]⟩

theorem Consistent.keeps_store (he : e.Consistent) {s : FileStore} (hs : e.store.Alike s) :
    e.Keeps { e with store := s } := by
  have hcatalog : ({ e with store := s } : Engine).catalog = e.catalog := rfl
  obtain ⟨hsame, htables, hstored⟩ := he.of_alike hcatalog hs
  have hconsistent : ({ e with store := s } : Engine).Consistent := by
    refine ⟨htables, he.sound, fun p page hcopy => hsame.fits (he.fits p page hcopy), ?_⟩
    intro p page hcopy hclean
    rw [hstored]
    exact he.clean p page hcopy hclean
  exact ⟨hsame, hconsistent, fun p => content_congr rfl (hstored p), fun _ _ hcopy _ => hcopy,
    fun file => congrArg (fun d : Disk => (d.contents file).length) hs.disk⟩

/-- A cache may lack any of the copies. -/
theorem Consistent.of_fewer_copies (he : e.Consistent) {c : Cache} (hc : c.Sound)
    (hfew : ∀ p page, c.copy? p = some page → e.cache.copy? p = some page) :
    ({ e with cache := c } : Engine).Consistent := by
  refine ⟨he.withCache c, hc, fun p page hcopy => he.fits p page (hfew p page hcopy), ?_⟩
  intro p page hcopy hclean
  have hstored : ∀ p, ({ e with cache := c } : Engine).stored p = e.stored p := stored_congr rfl rfl
  rw [hstored]
  exact he.clean p page (hfew p page hcopy) hclean

/-- A cache that lacks some of the copies has lost nothing if the files hold what these copies held. -/
theorem Consistent.keeps_cache (he : e.Consistent) {c : Cache} (hc : c.Sound)
    (hfew : ∀ p page, c.copy? p = some page → e.cache.copy? p = some page)
    (hlost : ∀ p page, e.cache.copy? p = some page → c.copy? p = none →
      (e.stored p).map (·.rows) = .ok page.rows) : e.Keeps { e with cache := c } := by
  have hstored : ∀ p, ({ e with cache := c } : Engine).stored p = e.stored p := stored_congr rfl rfl
  refine ⟨.withCache e c, he.of_fewer_copies hc hfew, ?_, fun p page hcopy _ => hfew p page hcopy, fun _ => rfl⟩
  intro p
  cases hcopy : c.copy? p with
  | some page => rw [content_of_copy (hfew p page hcopy), content_of_copy (by exact hcopy)]
  | none =>
    rw [content_of_not_cached (by exact hcopy), hstored]
    cases hold : e.cache.copy? p with
    | some page =>
      rw [content_of_copy hold]
      exact hlost p page hold hcopy
    | none => rw [content_of_not_cached hold]

theorem Consistent.keeps_copies (he : e.Consistent) {c : Cache} (hc : c.Sound)
    (hcopies : ∀ p, c.copy? p = e.cache.copy? p) : e.Keeps { e with cache := c } :=
  he.keeps_cache hc (fun p page hcopy => hcopies p ▸ hcopy) fun p page hcopy hnone => by
    rw [hcopies p, hcopy] at hnone
    simp at hnone

theorem Consistent.keeps_remove (he : e.Consistent) (p : PageId)
    (hclean : ∀ page, e.cache.copy? p = some page → page.dirtiedBy = none) :
    e.Keeps { e with cache := e.cache.remove p } := by
  have hcopy := he.sound.copy?_remove p
  apply he.keeps_cache (he.sound.remove p)
  · exact fun q page => he.sound.copy?_of_copy?_remove p
  · intro q page hq hnone
    rw [hcopy] at hnone
    split at hnone
    · next heq => exact he.clean q page hq (hclean page (heq ▸ hq))
    · rw [hq] at hnone
      simp at hnone

theorem TablesOpen.exists_file_of_stored (he : e.TablesOpen) (hpage : e.stored p = .ok page) :
    ∃ f, e.file? p.table = some f ∧ f.Has p ∧ f.load e.store.disk p = .ok page := by
  cases hf : e.file? p.table with
  | none =>
    rw [he.stored_of_none hf] at hpage
    simp at hpage
  | some f =>
    rw [he.stored_eq hf] at hpage
    refine ⟨f, rfl, ?_, hpage⟩
    by_cases hhas : f.Has p
    · exact hhas
    · rw [HeapFile.load_of_not_has hhas] at hpage
      simp at hpage

theorem Consistent.copy?_of_not_has (he : e.Consistent) (hf : e.file? p.table = some f) (hnot : ¬ f.Has p) :
    e.cache.copy? p = none := by
  rw [Option.eq_none_iff_forall_ne_some]
  intro page hpage
  obtain ⟨-, g, hg, -, hhas⟩ := he.fits _ page hpage
  obtain rfl := Option.some.inj (hf.symm.trans hg)
  exact hnot hhas

theorem Consistent.content_of_not_has (he : e.Consistent) (hf : e.file? p.table = some f) (hnot : ¬ f.Has p) :
    e.content p = .error (.pageNotFound p) := by
  rw [content_of_not_cached (he.copy?_of_not_has hf hnot), he.stored_eq hf, HeapFile.load_of_not_has hnot]
  rfl

/-- What a file holds are pages of the table, and they count as unchanged. -/
theorem TablesOpen.fits_stored (he : e.TablesOpen) (hpage : e.stored p = .ok page) :
    e.Fits p page ∧ page.id = p ∧ page.dirtiedBy = none := by
  obtain ⟨f, hf, hhas, hload⟩ := he.exists_file_of_stored hpage
  rw [(he.onDisk hf).load_eq hhas] at hload
  obtain ⟨hwf, hid, hschema, hclean⟩ := HeapPage.decode_wellFormed hload
  exact ⟨⟨hwf, f, hf, hschema, hhas⟩, hid, hclean⟩

/-- The copy of `p` is a new one, which fits and holds what the file holds if it counts as unchanged; all
else that is stored is as before. -/
theorem Consistent.of_new_copy (he : e.Consistent) (hsame : e.SameFiles e') (htables : e'.TablesOpen)
    (hsound : e'.cache.Sound)
    (hcopies : ∀ q, e'.cache.copy? q = if q = p then some page else e.cache.copy? q)
    (hstored : ∀ q, q ≠ p → e'.stored q = e.stored q) (hfits : e'.Fits p page)
    (hclean : page.dirtiedBy = none → (e'.stored p).map (·.rows) = .ok page.rows) :
    e'.Consistent ∧ ∀ q, e'.content q = if q = p then .ok page.rows else e.content q := by
  have hself : e'.cache.copy? p = some page := by rw [hcopies, if_pos rfl]
  have hother : ∀ q, q ≠ p → e'.cache.copy? q = e.cache.copy? q := fun q hq => by rw [hcopies, if_neg hq]
  refine ⟨⟨htables, hsound, ?_, ?_⟩, ?_⟩
  · intro q page' hq
    by_cases heq : q = p
    · subst heq
      rw [hself] at hq
      exact Option.some.inj hq ▸ hfits
    · rw [hother q heq] at hq
      exact hsame.fits (he.fits q page' hq)
  · intro q page' hq hclean'
    by_cases heq : q = p
    · subst heq
      rw [hself] at hq
      obtain rfl := Option.some.inj hq
      exact hclean hclean'
    · rw [hother q heq] at hq
      rw [hstored q heq]
      exact he.clean q page' hq hclean'
  · intro q
    by_cases heq : q = p
    · rw [if_pos heq, heq, content_of_copy hself]
    · rw [if_neg heq, content_congr (hother q heq) (hstored q heq)]

/-- If the new copy holds what was stored and counts as unchanged, no content changes. -/
theorem Consistent.keeps_of_new_copy (he : e.Consistent) (hsame : e.SameFiles e') (htables : e'.TablesOpen)
    (hsound : e'.cache.Sound)
    (hcopies : ∀ q, e'.cache.copy? q = if q = p then some page else e.cache.copy? q)
    (hstored : ∀ q, q ≠ p → e'.stored q = e.stored q) (hfits : e'.Fits p page)
    (hclean : page.dirtiedBy = none) (hnow : (e'.stored p).map (·.rows) = .ok page.rows)
    (hbefore : e.content p = .ok page.rows) (hlength : ∀ file, e'.fileLength file = e.fileLength file) :
    e.Keeps e' := by
  obtain ⟨hconsistent, hcontent⟩ :=
    he.of_new_copy hsame htables hsound hcopies hstored hfits fun _ => hnow
  refine ⟨hsame, hconsistent, ?_, ?_, hlength⟩
  · intro q
    rw [hcontent]
    split
    · next heq => rw [heq, hbefore]
    · rfl
  · intro q page' hq hdirty
    rw [hcopies] at hq
    split at hq
    · obtain rfl := Option.some.inj hq
      exact absurd hclean hdirty
    · exact hq

theorem Consistent.keeps_load (he : e.Consistent) (hpage : e.stored p = .ok page)
    (hmissing : e.cache.handle? p = none) :
    e.Keeps { e with cache := (e.cache.load page).2 } ∧
      (e.cache.load page).2.handle? p = some (e.cache.load page).1 := by
  obtain ⟨hfits, hid, hclean⟩ := he.fits_stored hpage
  rw [← hid] at hmissing
  have hcopy := he.sound.copy?_load hmissing
  rw [hid] at hcopy
  have hnone : e.cache.copy? p = none := Cache.copy?_eq_none (hid ▸ hmissing)
  have hstored : ∀ q, ({ e with cache := (e.cache.load page).2 } : Engine).stored q = e.stored q :=
    stored_congr rfl rfl
  have hheld : (e.stored p).map (·.rows) = .ok page.rows := by
    rw [hpage]
    rfl
  constructor
  · apply he.keeps_of_new_copy (.withCache e _) (he.withCache _) (he.sound.load hmissing) hcopy
      (fun q _ => hstored q) hfits hclean
    · rw [hstored, hheld]
    · rw [content_of_not_cached hnone, hheld]
    · exact fun _ => rfl
  · rw [Cache.handle?_load hmissing, if_pos hid.symm]

end Engine

end HeapStore
