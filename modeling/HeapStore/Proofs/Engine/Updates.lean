import HeapStore.Proofs.Engine.Content

/-!
# Writing to files and to page objects

Writing a page back to its file keeps all contents (`Consistent.keeps_writeBack`). Two changes are of another
kind: a file gets one page more (`Engine.Grows`, `Consistent.grows_append`), and a page object gets another
page (`Engine.Changes`, `Consistent.changes_setPage`).
-/

namespace HeapStore

namespace Engine

variable {e e' : Engine} {p q : PageId} {page : HeapPage} {h : Handle} {f g : HeapFile} {t : TableId}
  {entry : TableEntry}

/-! ### Writing to a file -/

theorem Consistent.exists_entry_of_copy (he : e.Consistent) (hcopy : e.cache.copy? p = some page) :
    ∃ (entry : TableEntry) (f : HeapFile), e.catalog.byId[p.table]? = some entry ∧
      e.store.file? entry.file = some f ∧ f.Has p := by
  obtain ⟨-, f, hf, -, hhas⟩ := he.fits p page hcopy
  obtain ⟨entry, hentry, hfile, -⟩ := he.exists_entry hf
  exact ⟨entry, f, hentry, hfile, hhas⟩

/-- No other table's file is at the path, so a write there leaves what they hold. -/
theorem TablesOpen.contents_write_of_ne (he : e.TablesOpen) (hf : e.file? t = some f) {t' : TableId}
    (hg : e.file? t' = some g) (hne : t' ≠ t) (offset : Nat) (bytes : List UInt8) :
    (e.store.disk.write f.path offset bytes).contents g.path = e.store.disk.contents g.path := by
  rw [Disk.contents_write, if_neg]
  intro hpath
  exact hne (he.paths t' t g f hg hf hpath)

theorem TablesOpen.read_write_of_ne (he : e.TablesOpen) (hf : e.file? p.table = some f)
    (hstart : p.number * pageSize ≤ (e.store.disk.contents f.path).length) (b : Block) {n : Nat}
    (hg : e.file? t = some g) (hne : (⟨g.table, n⟩ : PageId) ≠ p) :
    (e.store.disk.write f.path (p.number * pageSize) b.bytes).read g.path (n * pageSize) pageSize =
      e.store.disk.read g.path (n * pageSize) pageSize := by
  have hgtable := he.table_eq hg
  by_cases heq : t = p.table
  · subst heq
    rw [hf] at hg
    obtain rfl := Option.some.inj hg
    have hnumber : n ≠ p.number := fun hn => hne (by rw [hn, hgtable])
    exact Disk.read_write_of_disjoint b.bytes hstart
      (by rw [b.length_bytes]; exact HeapFile.places_disjoint hnumber)
  · rw [Disk.read, Disk.read, he.contents_write_of_ne hf hg heq]

theorem TablesOpen.sameFiles_put (he : e.TablesOpen) (ht : e.catalog.byId[t]? = some entry)
    (hf : e.store.file? entry.file = some f) (hhas : f.Has p) (b : Block) (hcatalog : e'.catalog = e.catalog)
    (hstore : e'.store = e.store.put entry.file f p b) : e.SameFiles e' ∧ e'.TablesOpen := by
  have hfile : e.file? t = some f := (file?_of_entry ht).trans hf
  have hsame : e.SameFiles e' := by
    refine ⟨hcatalog, fun t' => ?_⟩
    rw [he.file?_setFile ht hcatalog hstore]
    split
    · next heq => rw [heq, hfile]; rfl
    · rfl
  refine ⟨hsame, hsame.tablesOpen he fun t' g hg => ?_⟩
  rw [hstore]
  by_cases heq : t' = t
  · subst heq
    obtain rfl := Option.some.inj (hfile.symm.trans hg)
    exact (he.onDisk hfile).write hhas b
  · exact (he.onDisk hg).of_contents_eq (he.contents_write_of_ne hfile hg heq _ _)

/-- A page that the file has is overwritten in its place, so the file stays as long as it is. -/
theorem TablesOpen.fileLength_put (he : e.TablesOpen) (ht : e.catalog.byId[t]? = some entry)
    (hf : e.store.file? entry.file = some f) (hhas : f.Has p) (b : Block)
    (hstore : e'.store = e.store.put entry.file f p b) (file : List String) :
    e'.fileLength file = e.fileLength file := by
  have hend := HeapFile.end_le (he.onDisk ((file?_of_entry ht).trans hf)) hhas
  rw [fileLength, hstore]
  show ((e.store.disk.write f.path (p.number * pageSize) b.bytes).contents file).length = e.fileLength file
  rw [Disk.contents_write]
  split
  · next hfile =>
    rw [Disk.length_overwrite (by omega), b.length_bytes, hfile]
    exact Nat.max_eq_left hend
  · rfl

/-- What the files hold after a page was written to its file: that page there, and otherwise what they
held before. -/
theorem TablesOpen.stored_write (he : e.TablesOpen) (ht : e.catalog.byId[p.table]? = some entry)
    (hf : e.store.file? entry.file = some f) (hfits : e.Fits p page) (hid : page.id = p)
    (hcatalog : e'.catalog = e.catalog) (hstore : e'.store = e.store.put entry.file f p page.block) :
    e.SameFiles e' ∧ e'.TablesOpen ∧ (e'.stored p).map (·.rows) = .ok page.rows ∧
      ∀ q, q ≠ p → e'.stored q = e.stored q := by
  have hfile : e.file? p.table = some f := (file?_of_entry ht).trans hf
  have hdisk := he.onDisk hfile
  have hfiles := he.file?_setFile ht hcatalog hstore
  have hnew : e'.store.disk = e.store.disk.write f.path (p.number * pageSize) page.block.bytes := by
    rw [hstore]
    rfl
  obtain ⟨hwf, f', hf', hschema, hhas⟩ := hfits
  rw [hfile] at hf'
  obtain rfl := Option.some.inj hf'
  obtain ⟨hsame, htables⟩ := he.sameFiles_put ht hf hhas page.block hcatalog hstore
  refine ⟨hsame, htables, ?_, ?_⟩
  · obtain ⟨page', hread, hrows, -⟩ := hwf.decode_block
    rw [hid] at hread
    have hload : f.countWrite.load e'.store.disk p = .ok page' := by
      rw [HeapFile.load_eq_of_uncounted_eq (f := f.countWrite) (g := f) rfl, hnew, hdisk.load_write hhas,
        ← hschema, hread]
    rw [htables.stored_eq (p := p) (by rw [hfiles, if_pos rfl]), hload, ← hrows]
    rfl
  · intro q hq
    apply hsame.stored_eq he htables
    intro g hg
    by_cases heq : q.table = p.table
    · rw [heq, hfile] at hg
      obtain rfl := Option.some.inj hg
      rw [hnew, hdisk.load_write_of_ne hhas page.block hq]
    · rw [hnew]
      exact HeapFile.load_of_contents_eq (he.contents_write_of_ne hfile hg heq _ _)

theorem Consistent.keeps_writeBack (he : e.Consistent) (hh : e.cache.handle? p = some h)
    (hcopy : e.cache.copy? p = some page) (ht : e.catalog.byId[p.table]? = some entry)
    (hf : e.store.file? entry.file = some f) :
    e.Keeps { e with
      store := e.store.put entry.file f p page.block
      cache := e.cache.setPage h page.markClean } := by
  have hid := he.sound.id_of_copy hcopy
  have hfits := he.fits p page hcopy
  have hnew := he.sound.copy?_setPage hh page.markClean
  let e' : Engine :=
    { e with store := e.store.put entry.file f p page.block, cache := e.cache.setPage h page.markClean }
  have hcatalog : e'.catalog = e.catalog := rfl
  obtain ⟨hsame, htables, hwritten, hothers⟩ := he.stored_write ht hf hfits hid hcatalog rfl
  obtain ⟨hwf, hfile⟩ := hsame.fits hfits
  obtain ⟨-, f', hf', -, hhas⟩ := hfits
  obtain rfl := Option.some.inj (hf'.symm.trans ((file?_of_entry ht).trans hf))
  apply he.keeps_of_new_copy hsame htables (he.sound.setPage hh hid) hnew hothers ⟨hwf.markClean, hfile⟩ rfl
  · rw [hwritten, HeapPage.rows_markClean]
  · rw [content_of_copy hcopy, HeapPage.rows_markClean]
  · exact he.fileLength_put ht hf hhas page.block rfl

/-! ### Appending a page -/

/-- From one consistent state to another in which the file of `p` has one page more, without tuples. -/
structure Grows (p : PageId) (e e' : Engine) : Prop where
  catalog : e'.catalog = e.catalog
  consistent : e'.Consistent
  missing : e.content p = .error (.pageNotFound p)
  blank : ∃ f, e.file? p.table = some f ∧ e'.content p = .ok (HeapPage.blank p f.schema).rows
  content : ∀ q, q ≠ p → e'.content q = e.content q
  dirty : ∀ q page, e'.cache.copy? q = some page → page.dirtiedBy ≠ none → e.cache.copy? q = some page
  lengths : Lengthens p e e'

theorem Grows.trans_keeps {e'' : Engine} (h : Grows p e e') (h' : e'.Keeps e'') : Grows p e e'' := by
  obtain ⟨f, hf, hblank⟩ := h.blank
  exact ⟨h'.catalog.trans h.catalog, h'.consistent, h.missing, ⟨f, hf, (h'.content p).trans hblank⟩,
    fun q hq => (h'.content q).trans (h.content q hq),
    fun q page hcopy hdirty => h.dirty q page (h'.dirty q page hcopy hdirty) hdirty,
    h.lengths.trans_same h'.sameLengths⟩

theorem Keeps.trans_grows {e'' : Engine} (h : e.Keeps e') (h' : Grows p e' e'') : Grows p e e'' := by
  obtain ⟨f, hf, hblank⟩ := h'.blank
  obtain ⟨f', hf', heq⟩ := h.exists_file' hf
  obtain ⟨-, hschema, -⟩ := HeapFile.uncounted_eq_iff.1 heq
  refine ⟨h'.catalog.trans h.catalog, h'.consistent, (h.content p).symm.trans h'.missing,
    ⟨f', hf', hschema ▸ hblank⟩, fun q hq => (h'.content q hq).trans (h.content q),
    fun q page hcopy hdirty => h.dirty q page (h'.dirty q page hcopy hdirty) hdirty,
    h.sameLengths.trans_lengthens h'.lengths⟩

/-- The engine after a page was appended to an open file. -/
def appended (e : Engine) (fd : Descriptor) (f : HeapFile) : Engine :=
  { e with store := { e.store.setFile fd (f.append e.store.disk).1 with disk := (f.append e.store.disk).2 } }

theorem TablesOpen.file?_appended (he : e.TablesOpen) (ht : e.catalog.byId[t]? = some entry) (t' : TableId) :
    (e.appended entry.file f).file? t' = if t' = t then some (f.append e.store.disk).1 else e.file? t' :=
  he.file?_setFile ht (show (e.appended entry.file f).catalog = e.catalog from rfl) rfl t'

theorem TablesOpen.contents_appended (he : e.TablesOpen) (hf : e.file? t = some f) {t' : TableId}
    (hg : e.file? t' = some g) (hne : t' ≠ t) (fd : Descriptor) :
    (e.appended fd f).store.disk.contents g.path = e.store.disk.contents g.path :=
  he.contents_write_of_ne hf hg hne _ _

theorem TablesOpen.appended (he : e.TablesOpen) (ht : e.catalog.byId[t]? = some entry)
    (hf : e.store.file? entry.file = some f) : (e.appended entry.file f).TablesOpen := by
  have hfile : e.file? t = some f := (file?_of_entry ht).trans hf
  have hfiles := he.file?_appended (f := f) ht
  refine ⟨?_, ?_, he.numbered⟩
  · intro t' entry' ht'
    have hentry : e.catalog.byId[t']? = some entry' := ht'
    obtain ⟨g, hg, htable, hdisk⟩ := he.opened t' entry' hentry
    have hg' : e.file? t' = some g := (file?_of_entry hentry).trans hg
    rw [← file?_of_entry ht', hfiles]
    split
    · next heq =>
      have htable' : f.table = t' := (he.table_eq hfile).trans heq.symm
      exact ⟨(f.append e.store.disk).1, rfl, htable', (he.onDisk hfile).append⟩
    · next hne => exact ⟨g, hg', htable, hdisk.of_contents_eq (he.contents_appended hfile hg' hne _)⟩
  · intro t₁ t₂ f₁ f₂ h₁ h₂ hpath
    -- An append leaves the paths as they are.
    have hpaths : ∀ t' g, (e.appended entry.file f).file? t' = some g →
        ∃ g', e.file? t' = some g' ∧ g'.path = g.path := by
      intro t' g hg
      rw [hfiles] at hg
      split at hg
      · next heq =>
        obtain rfl := Option.some.inj hg
        exact ⟨f, heq ▸ hfile, rfl⟩
      · exact ⟨g, hg, rfl⟩
    obtain ⟨g₁, hg₁, hp₁⟩ := hpaths t₁ f₁ h₁
    obtain ⟨g₂, hg₂, hp₂⟩ := hpaths t₂ f₂ h₂
    exact he.paths t₁ t₂ g₁ g₂ hg₁ hg₂ (hp₁.trans (hpath.trans hp₂.symm))

theorem TablesOpen.lengthens_appended (he : e.TablesOpen) (ht : e.catalog.byId[t]? = some entry)
    (hf : e.store.file? entry.file = some f) : Lengthens f.nextPage e (e.appended entry.file f) := by
  have hfile : e.file? t = some f := (file?_of_entry ht).trans hf
  refine ⟨fun t' => ?_, f.path, ?_, fun other => ?_⟩
  · rw [path?, path?, he.file?_appended ht]
    split
    · next heq => rw [heq, hfile]; rfl
    · rfl
  · rw [path?, show f.nextPage.table = t from he.table_eq hfile, hfile, Option.map_some]
  · show ((e.store.disk.write f.path (f.numPages * pageSize) Block.zero.bytes).contents other).length = _
    rw [Disk.contents_write]
    split
    · rw [Disk.length_overwrite (he.onDisk hfile).length, Block.length_bytes, HeapFile.nextPage, Nat.succ_mul,
        fileLength]
    · rfl

theorem TablesOpen.stored_appended (he : e.TablesOpen) (ht : e.catalog.byId[t]? = some entry)
    (hf : e.store.file? entry.file = some f) (hq : q ≠ f.nextPage) :
    (e.appended entry.file f).stored q = e.stored q := by
  have hfile : e.file? t = some f := (file?_of_entry ht).trans hf
  have htables := he.appended ht hf
  have hnow := he.file?_appended (f := f) ht q.table
  by_cases heq : q.table = t
  · rw [if_pos heq] at hnow
    rw [htables.stored_eq hnow, he.stored_eq (heq ▸ hfile)]
    exact (he.onDisk hfile).load_append_of_ne hq
  · rw [if_neg heq] at hnow
    cases hg : e.file? q.table with
    | none => rw [he.stored_of_none hg, htables.stored_of_none (hnow.trans hg)]
    | some g =>
      rw [he.stored_eq hg, htables.stored_eq (hnow.trans hg)]
      exact HeapFile.load_of_contents_eq (he.contents_appended hfile hg heq _)

theorem TablesOpen.fits_appended (he : e.TablesOpen) (ht : e.catalog.byId[t]? = some entry)
    (hf : e.store.file? entry.file = some f) (hfits : e.Fits q page) :
    (e.appended entry.file f).Fits q page := by
  obtain ⟨hwf, g, hg, hschema, hhas⟩ := hfits
  have hnow := he.file?_appended (f := f) ht q.table
  by_cases heq : q.table = t
  · rw [heq, (file?_of_entry ht).trans hf] at hg
    obtain rfl := Option.some.inj hg
    rw [if_pos heq] at hnow
    exact ⟨hwf, (f.append e.store.disk).1, hnow, hschema, HeapFile.has_append_iff.2 (Or.inl hhas)⟩
  · rw [if_neg heq] at hnow
    exact ⟨hwf, g, hnow.trans hg, hschema, hhas⟩

theorem Consistent.grows_append (he : e.Consistent) (ht : e.catalog.byId[t]? = some entry)
    (hf : e.store.file? entry.file = some f) : Grows f.nextPage e (e.appended entry.file f) := by
  have hfile : e.file? t = some f := (file?_of_entry ht).trans hf
  have htable : f.nextPage.table = t := he.table_eq hfile
  have htables := he.toTablesOpen.appended ht hf
  have hnot : ¬ f.Has f.nextPage := fun hhas => Nat.lt_irrefl _ hhas.2
  have hcopy : e.cache.copy? f.nextPage = none := he.copy?_of_not_has (htable.symm ▸ hfile) hnot
  have hconsistent : (e.appended entry.file f).Consistent := by
    refine ⟨htables, he.sound, fun q page hq => he.fits_appended ht hf (he.fits q page hq), ?_⟩
    intro q page hq hclean
    have hne : q ≠ f.nextPage := by
      rintro rfl
      change e.cache.copy? f.nextPage = some page at hq
      rw [hcopy] at hq
      simp at hq
    rw [he.stored_appended ht hf hne]
    exact he.clean q page hq hclean
  have hmissing : e.content f.nextPage = .error (.pageNotFound f.nextPage) :=
    he.content_of_not_has (htable.symm ▸ hfile) hnot
  have hblank : (e.appended entry.file f).content f.nextPage =
      .ok (HeapPage.blank f.nextPage f.schema).rows := by
    have hself := he.file?_appended (f := f) ht f.nextPage.table
    rw [if_pos htable] at hself
    rw [content_of_not_cached (by exact hcopy), htables.stored_eq hself]
    exact congrArg (Except.map _) (he.onDisk hfile).load_append
  refine ⟨rfl, hconsistent, hmissing, ⟨f, htable.symm ▸ hfile, hblank⟩, ?_, fun q page hq _ => hq,
    he.toTablesOpen.lengthens_appended ht hf⟩
  exact fun q hq => content_congr rfl (he.stored_appended ht hf hq)

/-! ### Another page in an object -/

/-- From one consistent state to another in which the copy of `p` is the page `page`, which is marked as
changed, and all else is as before. -/
structure Changes (p : PageId) (page : HeapPage) (e e' : Engine) : Prop where
  catalog : e'.catalog = e.catalog
  consistent : e'.Consistent
  copies : ∀ q, e'.cache.copy? q = if q = p then some page else e.cache.copy? q
  content : ∀ q, e'.content q = if q = p then .ok page.rows else e.content q

theorem Consistent.changes_setPage (he : e.Consistent) (hh : e.cache.handle? p = some h)
    (hcopy : e.cache.copy? p = some page) {page' : HeapPage} (hwf : page'.WellFormed)
    (hid : page'.id = p) (hschema : page'.schema = page.schema) (hdirty : page'.dirtiedBy ≠ none) :
    Changes p page' e { e with cache := e.cache.setPage h page' } := by
  have hnew := he.sound.copy?_setPage hh page'
  have hstored : ∀ q, ({ e with cache := e.cache.setPage h page' } : Engine).stored q = e.stored q :=
    stored_congr rfl rfl
  obtain ⟨-, f, hf, hfschema, hhas⟩ := he.fits p page hcopy
  have hfits : ({ e with cache := e.cache.setPage h page' } : Engine).Fits p page' :=
    ⟨hwf, f, hf, hschema.trans hfschema, hhas⟩
  obtain ⟨hconsistent, hcontent⟩ := he.of_new_copy (.withCache e _) (he.withCache _) (he.sound.setPage hh hid)
    hnew (fun q _ => hstored q) hfits fun hclean => absurd hclean hdirty
  exact ⟨rfl, hconsistent, hnew, hcontent⟩

end Engine

end HeapStore
