import HeapStore.Proofs.Cache.Eviction
import HeapStore.Proofs.Engine.Accesses
import HeapStore.Proofs.Engine.Acts
import HeapStore.Proofs.Engine.FirstFit
import HeapStore.Proofs.Page.Emptiness

/-!
# Engines at work

`Engine.Worked` are the engines that there can be while callers use the pool, hold page objects, and change the pages of
objects that they hold, each time marking the page. If tables have files of their own and both sides of the lock table
agree (`Event.Orderly`), all these engines are consistent and their lock tables are coherent
(`Engine.Worked.consistent`, `Engine.Worked.coherent`). If moreover the files are empty when their
tables are registered (`Engine.Grown`), no page has a bit set past its last slot, neither in the pool nor on the disk
(`Engine.Grown.tidy`): the engine never sets one, so there is none to be read.
-/

namespace HeapStore

namespace HeapPage

variable {p : HeapPage}

theorem Tidy.change (htidy : p.Tidy) (hp : p.WellFormed) (c : Change) : (p.change c).Tidy := by
  obtain hsame | ⟨slot, entry, hsets⟩ := hp.sets_change c
  · rw [hsame]
    exact htidy
  · exact hsets.tidy htidy

end HeapPage

namespace Engine

variable {e e' : Engine} {p : PageId} {h : Handle} {page : HeapPage}

/-! ### Runs -/

namespace Event

/-- Tables are registered with files that are none of the other tables', and whatever happens to the locks, the pages of
transactions are those that they hold. -/
def Orderly : Event → Engine → Prop
  | register _ path _, e => e.NewPath path
  | transact locks _, _ => locks.Coherent
  | _, _ => True

/-- A table is registered with a file that is new or empty. -/
def StartsEmpty : Event → Engine → Prop
  | register _ path _, e => ∀ file, e.store.disk.target path = .ok file → e.store.disk.contents file = []
  | _, _ => True

theorem Orderly.allowed {ev : Event} (h : ev.Orderly e) : ev.Allowed e := by
  cases ev with
  | register name path schema => exact h
  | call c => trivial
  | discard p => trivial
  | transact locks nextTxn => trivial

end Event

/-- The engines that there can be while tables have files of their own. -/
abbrev Worked : Engine → Prop := Run Event.Orderly fun _ => True

/-- The engines whose tables were all built from empty files. -/
abbrev Grown : Engine → Prop := Run (fun ev e => ev.Orderly e ∧ ev.StartsEmpty e) fun _ => True

theorem Grown.worked (h : Grown e) : Worked e := Run.mono (fun _ _ hev => hev.1) (fun _ => id) h

theorem Grown.calls (h : Grown e) (calls : List Call) : Grown (calls.foldl (fun e c => c.after e) e) := by
  induction calls generalizing e with
  | nil => exact h
  | cons c calls ih => exact ih (.event (.call c) h ⟨trivial, trivial⟩)

/-! ### What happens in a run -/

/-- Every event is a series of acts, but for a registration that succeeds. -/
theorem Event.acts_or_registers (ev : Event) (he : e.Consistent) (hev : ev.Orderly e) : Acts e (ev.after e) ∨
    ∃ name path schema entry f, ev = .register name path schema ∧ Registers entry f e (ev.after e) ∧
      e.store.disk.target path = .ok f.path ∧ (ev.after e).cache = e.cache ∧ (ev.after e).locks = e.locks := by
  cases ev with
  | call c => exact .inl (c.acts he)
  | register name path schema =>
    have hends : Ends (Op.addTable name path schema) e
        (fun _ e' => Acts e e' ∨ ∃ entry f, Registers entry f e e' ∧ e.store.disk.target path = .ok f.path ∧
          e'.cache = e.cache ∧ e'.locks = e.locks)
        (fun _ e' => Acts e e' ∨ ∃ entry f, Registers entry f e e' ∧ e.store.disk.target path = .ok f.path ∧
          e'.cache = e.cache ∧ e'.locks = e.locks) := by
      refine (Op.ends_addTable_registers name schema hev).mono ?_ ?_
      · rintro _ e' ⟨entry, f, hregisters, htarget, hcache, hlocks, -⟩
        exact .inr ⟨entry, f, hregisters, htarget, hcache, hlocks⟩
      · rintro _ _ rfl
        exact .inl .refl
    obtain hacts | ⟨entry, f, hregisters⟩ := hends.always
    · exact .inl hacts
    · exact .inr ⟨name, path, schema, entry, f, rfl, hregisters⟩
  | discard p =>
    exact .inl (.single (.fewer (he.sound.remove p) fun q page => he.sound.copy?_of_copy?_remove p))
  | transact locks nextTxn => exact .inl (.single (.locked fun _ => hev))

theorem Worked.consistent (h : Worked e) : e.Consistent := Run.consistent (fun _ _ => Event.Orderly.allowed) h

theorem Worked.coherent (h : Worked e) : e.locks.Coherent := by
  induction h with
  | start disk settings => exact LockTable.coherent_empty
  | event ev hrun hev ih =>
    obtain hacts | ⟨_, _, _, _, _, _, _, _, _, hlocks⟩ := ev.acts_or_registers (Worked.consistent hrun) hev
    · exact hacts.coherent ih
    · exact hlocks ▸ ih
  | again _ h _ _ ih => exact ih
  | edit _ c txn _ _ _ ih => exact ih

/-! ### Bits past the last slot -/

/-- Neither a cached copy nor a page on the disk has a bit set past its last slot. -/
structure Tidy (e : Engine) : Prop where
  copies : ∀ p page, e.cache.copy? p = some page → page.Tidy
  stored : ∀ p page, e.stored p = .ok page → page.Tidy

theorem Tidy.of_same_store (ht : e.Tidy) (hcatalog : e'.catalog = e.catalog) (hstore : e'.store = e.store)
    (hcopies : ∀ q page, e'.cache.copy? q = some page → page.Tidy) : e'.Tidy :=
  ⟨hcopies, fun q page hq => ht.stored q page ((stored_congr hcatalog hstore q).symm.trans hq)⟩

/-- A page that was written is read with the bits that it had. -/
theorem Tidy.written (ht : e.Tidy) (he : e.Consistent) {entry : TableEntry} {f : HeapFile}
    (hh : e.cache.handle? p = some h) (hcopy : e.cache.copy? p = some page)
    (hentry : e.catalog.byId[p.table]? = some entry) (hf : e.store.file? entry.file = some f)
    (hcatalog : e'.catalog = e.catalog)
    (hstore : e'.store = e.store.put entry.file f p page.block)
    (hcache : e'.cache = e.cache.setPage h page.markClean) : e'.Tidy := by
  have htidy : page.Tidy := ht.copies p page hcopy
  have hid : page.id = p := he.sound.id_of_copy hcopy
  obtain ⟨hwf, g, hg, hschema, hhas⟩ := he.fits p page hcopy
  have hfile : e.file? p.table = some f := (file?_of_entry hentry).trans hf
  obtain rfl := Option.some.inj (hg.symm.trans hfile)
  refine ⟨fun q copy hq => ?_, fun q read hq => ?_⟩
  · rw [hcache, he.sound.copy?_setPage hh] at hq
    split at hq
    · exact Option.some.inj hq ▸ htidy
    · exact ht.copies q copy hq
  · obtain ⟨-, htables, -, hothers⟩ :=
      he.stored_write hentry hf ⟨hwf, g, hg, hschema, hhas⟩ hid hcatalog hstore
    by_cases hqp : q = p
    · subst hqp
      have hnow := he.file?_setFile hentry hcatalog hstore q.table
      rw [if_pos rfl] at hnow
      obtain ⟨page', hpage', -, hheader⟩ := hwf.decode_block
      have hsame : g.countWrite.uncounted = g.uncounted := rfl
      have hload : g.countWrite.load e'.store.disk q = .ok page' := by
        rw [hstore, HeapFile.load_eq_of_uncounted_eq hsame, FileStore.put, (he.onDisk hfile).load_write hhas, ← hschema,
          ← hpage', hid]
      rw [htables.stored_eq hnow] at hq
      obtain rfl := Except.ok.inj (hload.symm.trans hq)
      obtain ⟨hwf', -, hschema', -⟩ := HeapPage.decode_wellFormed hpage'
      intro i hi
      rw [hheader]
      refine htidy i ?_
      rwa [HeapPage.numSlots, hwf.length_slots, ← hschema', ← hwf'.length_slots]
    · rw [hothers q hqp] at hq
      exact ht.stored q read hq

theorem Move.tidy (h : Move e e') (he : e.Consistent) (ht : e.Tidy) : e'.Tidy := by
  cases h with
  | counted hs =>
    obtain ⟨-, -, hstored⟩ := he.of_alike (he.keeps_store hs).catalog hs
    exact ⟨ht.copies, fun q page hq => ht.stored q page ((hstored q).symm.trans hq)⟩
  | touched => exact ht.of_same_store rfl rfl ht.copies
  | written hh hcopy _ hentry hf => exact ht.written he hh hcopy hentry hf rfl rfl rfl
  | removed =>
    exact ht.of_same_store rfl rfl fun q page hq => ht.copies q page (he.sound.copy?_of_copy?_remove _ hq)
  | @loaded p page hpage hmissing =>
    obtain ⟨-, rfl, -⟩ := he.fits_stored hpage
    refine ht.of_same_store rfl rfl fun q copy hq => ?_
    rw [he.sound.copy?_load hmissing] at hq
    split at hq
    · exact Option.some.inj hq ▸ ht.stored _ page hpage
    · exact ht.copies q copy hq

theorem Tidy.appended (ht : e.Tidy) (he : e.Consistent) {t : TableId} {entry : TableEntry} {f : HeapFile}
    (hentry : e.catalog.byId[t]? = some entry) (hf : e.store.file? entry.file = some f) :
    (e.appended entry.file f).Tidy := by
  refine ⟨ht.copies, fun q read hq => ?_⟩
  by_cases hnew : q = f.nextPage
  · subst hnew
    have hfile : e.file? t = some f := (file?_of_entry hentry).trans hf
    have hnow := he.file?_appended (f := f) hentry f.nextPage.table
    rw [if_pos (show f.nextPage.table = t from he.table_eq hfile)] at hnow
    rw [(he.toTablesOpen.appended hentry hf).stored_eq hnow] at hq
    obtain rfl := Except.ok.inj ((he.onDisk hfile).load_append.symm.trans hq)
    exact HeapPage.tidy_blank _ _
  · rw [he.stored_appended hentry hf hnew] at hq
    exact ht.stored q read hq

theorem Act.tidy (h : Act e e') (he : e.Consistent) (ht : e.Tidy) : e'.Tidy := by
  cases h with
  | moved hmove => exact hmove.tidy he ht
  | locked => exact ht.of_same_store rfl rfl ht.copies
  | fewer hc hfew => exact ht.of_same_store rfl rfl fun q page hq => ht.copies q page (hfew q page hq)
  | @changed p h page c txn hh hcopy =>
    refine ht.of_same_store rfl rfl fun q copy hq => ?_
    rw [he.sound.copy?_setPage hh] at hq
    split at hq
    · exact Option.some.inj hq ▸ (ht.copies p page hcopy).change (he.fits p page hcopy).1 c
    · exact ht.copies q copy hq
  | appended hentry hf => exact ht.appended he hentry hf

theorem Acts.tidy (h : Acts e e') (he : e.Consistent) (ht : e.Tidy) : e'.Tidy :=
  (h.induct he ht fun _ _ he₁ ht₁ hact => hact.tidy he₁ ht₁).2

/-- A table with an empty file has no pages. -/
theorem Tidy.registered (ht : e.Tidy) (he : e.Consistent) {entry : TableEntry} {f : HeapFile}
    (hregisters : Registers entry f e e') (hcache : e'.cache = e.cache)
    (hempty : e.store.disk.contents f.path = []) : e'.Tidy := by
  refine ⟨fun q page hq => ht.copies q page (hcache ▸ hq), fun q page hq => ?_⟩
  obtain ⟨g, hg, hhas, -⟩ := (hregisters.tablesOpen he.toTablesOpen).exists_file_of_stored hq
  rw [hregisters.file?_eq he.toTablesOpen] at hg
  split at hg
  · obtain rfl := Option.some.inj hg
    have hlength := hregisters.onDisk.length
    have hnumber := hhas.2
    rw [hempty, List.length_nil, pageSize] at hlength
    omega
  · rw [hregisters.stored_eq he.toTablesOpen (by rw [hg]; simp)] at hq
    exact ht.stored q page hq

/-- On an engine whose tables were built from empty files no bit past a last slot is ever set. -/
theorem Grown.tidy (h : Grown e) : e.Tidy := by
  induction h with
  | start disk settings =>
    refine ⟨fun p page hcopy => ?_, fun p page hstored => ?_⟩
    · rw [Cache.copy?_eq_none (by simp [start, Cache.handle?])] at hcopy
      simp at hcopy
    · obtain ⟨f, hf, -⟩ := (consistent_start disk settings).exists_file_of_stored hstored
      rw [file?_start] at hf
      simp at hf
  | event ev hrun hev ih =>
    have he := (Grown.worked hrun).consistent
    obtain hacts | ⟨_, path, _, _, _, rfl, hregisters, htarget, hcache, -⟩ := ev.acts_or_registers he hev.1
    · exact hacts.tidy he ih
    · exact ih.registered he hregisters hcache (hev.2 _ htarget)
  | again _ h hrun _ ih =>
    have he := (Grown.worked hrun).consistent
    exact (act_hold he h).tidy he ih
  | edit _ c txn hrun hheld hpage ih =>
    have he := (Grown.worked hrun).consistent
    exact (act_edit he c txn hheld hpage).tidy he ih

end Engine

end HeapStore
