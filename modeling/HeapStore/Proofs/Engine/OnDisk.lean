import HeapStore.Proofs.Engine.Accesses

/-!
# What has been written stays on the disk

While a page counts as changed it stays in the cache until it is written. From then on it rests in its place on the disk
(`Engine.Rests`): no other page has bytes there, and the page itself is written again only after somebody changed it.
This is told from what one step can make of a page (`PoolStep.fate`), provided that every table has a file of its own,
which all steps keep up (`PoolStep.tablesOpen`). So whatever becomes of a changed page in the course of some steps,
either its copy is still there at their end or the disk has it (`PoolSteps.safe`).
-/

namespace HeapStore

namespace Engine

/-- These bytes stand in the place of the page, and the file of its table has the page. -/
structure Stands (p : PageId) (bytes : List UInt8) (e : Engine) : Prop where
  file : ∃ f, e.file? p.table = some f ∧ f.Has p
  bytes : e.diskBytes? p = some bytes

/-- The bytes in the place of the page are up to date, as a cached copy counts as unchanged. -/
structure Rests (p : PageId) (bytes : List UInt8) (e : Engine) : Prop extends Stands p bytes e where
  clean : ∀ page, e.cache.copy? p = some page → page.dirtiedBy = none

/-- The copy that was cached is still there, or it rests on the disk. -/
def Safe (p : PageId) (page : HeapPage) (e : Engine) : Prop :=
  e.cache.copy? p = some page ∨ Rests p page.block.bytes e

/-- What one step makes of a page if it does not change it. -/
inductive Fate (p : PageId) (e e' : Engine) : Prop
  | same (hcopy : e'.cache.copy? p = e.cache.copy? p) (hplace : ∀ bytes, Stands p bytes e → Stands p bytes e')
  /-- It counted as changed and was written. -/
  | written {page : HeapPage} (hcopy : e.cache.copy? p = some page) (hdirty : page.isDirty = true)
      (hrests : Rests p page.block.bytes e')
  /-- It was loaded, or it counted as unchanged and was given up. -/
  | moved (hbefore : ∀ page, e.cache.copy? p = some page → page.isDirty = false)
      (hafter : ∀ page, e'.cache.copy? p = some page → page.dirtiedBy = none)
      (hplace : ∀ bytes, Stands p bytes e → Stands p bytes e')

variable {e e' : Engine} {p q : PageId} {page : HeapPage} {bytes : List UInt8} {deed : Deed} {may : Work → Prop}
  {h : Handle} {log : List PageId} {wanted : Option PageId} {store : FileStore}

/-! ### Places -/

theorem SameFiles.exists_has (hsame : e.SameFiles e') (h : ∃ f, e.file? p.table = some f ∧ f.Has p) :
    ∃ f, e'.file? p.table = some f ∧ f.Has p := by
  obtain ⟨f, hf, hhas⟩ := h
  obtain ⟨f', hf', heq⟩ := hsame.exists_file hf
  obtain ⟨htable, -, -, hpages⟩ := HeapFile.uncounted_eq_iff.1 heq
  exact ⟨f', hf', hhas.1.trans htable.symm, hpages ▸ hhas.2⟩

theorem SameFiles.stands (hsame : e.SameFiles e') (hbytes : e'.diskBytes? p = e.diskBytes? p)
    (hstands : Stands p bytes e) : Stands p bytes e' :=
  ⟨hsame.exists_has hstands.file, hbytes.trans hstands.bytes⟩

theorem Stands.withCache (hstands : Stands p bytes e) (c : Cache) : Stands p bytes { e with cache := c } :=
  ⟨hstands.file, hstands.bytes⟩

theorem TablesOpen.stands_of_alike (he : e.TablesOpen) (hcatalog : e'.catalog = e.catalog)
    (hs : e.store.Alike e'.store) (hstands : Stands p bytes e) : Stands p bytes e' :=
  (he.of_alike hcatalog hs).1.stands (he.diskBytes?_of_alike hcatalog hs p) hstands

theorem Puts.stands (hputs : e.Puts page store) (he : e.TablesOpen) (hcatalog : e'.catalog = e.catalog)
    (hstore : e'.store = store) : Stands page.id page.block.bytes e' :=
  ⟨(he.puts hputs hcatalog hstore).1.exists_has hputs.exists_file, hputs.diskBytes? hcatalog hstore⟩

theorem Puts.tablesOpen (hputs : e.Puts page store) (he : e.TablesOpen) (hcatalog : e'.catalog = e.catalog)
    (hstore : e'.store = store) : e'.TablesOpen := (he.puts hputs hcatalog hstore).2.1

theorem Puts.stands_of_ne (hputs : e.Puts page store) (he : e.TablesOpen) (hcatalog : e'.catalog = e.catalog)
    (hstore : e'.store = store) (hp : p ≠ page.id) (hstands : Stands p bytes e) : Stands p bytes e' := by
  obtain ⟨hsame, -, hbytes⟩ := he.puts hputs hcatalog hstore
  exact hsame.stands (hbytes p hp) hstands

/-! ### One step -/

/-- All tables stay open. -/
theorem PoolStep.tablesOpen (hstep : PoolStep e deed e') (he : e.TablesOpen) : e'.TablesOpen := by
  cases hstep with
  | other hcatalog hstore => exact (he.of_alike hcatalog hstore).2.1
  | accessed => exact he.withCache _
  | loaded => exact he.withCache _
  | evicted _ _ _ _ _ hstore =>
    split at hstore
    · exact hstore.tablesOpen he rfl rfl
    · rw [hstore]
      exact he.withCache _
  | written _ _ _ hstore => exact hstore.tablesOpen he rfl rfl
  | changed => exact he.withCache _
  | appended hfd hf =>
    obtain ⟨entry, ht, rfl⟩ := exists_entry_of_file hfd
    exact he.appended ht hf

theorem TablesOpen.fate_evicted (he : e.TablesOpen) (hb : e.cache.Bounded) (hh : e.cache.handle? q = some h)
    (hpage : e.cache.page? h = some page) (hstore : if page.isDirty then e.Puts page store else store = e.store)
    (p : PageId) : Fate p e { e with store, cache := e.cache.giveUp h page } := by
  have hcopy : e.cache.copy? q = some page := (Cache.copy?_eq_of_handle? hh).trans hpage
  have hid : page.id = q := hb.id_of_copy hcopy
  have hq : h.page = q := (Cache.handle?_eq_some_iff.1 hh).2
  by_cases hp : p = q
  · subst hp
    have hgone : (e.cache.giveUp h page).copy? p = none := by
      refine Cache.copy?_eq_none ?_
      rw [Cache.handle?_giveUp, hq, if_pos rfl]
    have hafter : ∀ copy, (e.cache.giveUp h page).copy? p = some copy → copy.dirtiedBy = none := by simp [hgone]
    split at hstore
    · next hdirty => exact .written hcopy hdirty ⟨hid ▸ hstore.stands he rfl rfl, hafter⟩
    · next hclean =>
      refine .moved (fun copy hcopy' => ?_) hafter fun bytes hstands => ?_
      · rw [← Option.some.inj (hcopy.symm.trans hcopy')]
        exact Bool.eq_false_iff.2 hclean
      · rw [hstore]
        exact hstands.withCache _
  · refine .same (hb.copy?_giveUp hh hpage hp) fun bytes hstands => ?_
    split at hstore
    · exact hstore.stands_of_ne he rfl rfl (hid ▸ hp) hstands
    · rw [hstore]
      exact hstands.withCache _

theorem PoolStep.fate (hstep : PoolStep e deed e') (he : e.TablesOpen) (hb : e.cache.Bounded)
    (hother : ∀ h, deed = .work (.change h) → h.page ≠ p) : Fate p e e' := by
  cases hstep with
  | other hcatalog hstore hcache =>
    exact .same (by rw [hcache]) fun bytes hstands => he.stands_of_alike hcatalog hstore hstands
  | accessed => exact .same rfl fun bytes hstands => hstands.withCache _
  | @loaded page hmissing _ hstored =>
    have hcopy := hb.copy?_load hmissing p
    by_cases hp : p = page.id
    · rw [if_pos hp] at hcopy
      refine .moved ?_ ?_ fun bytes hstands => hstands.withCache _
      · simp [hp, Cache.copy?_eq_none hmissing]
      · rintro page' hpage'
        rw [← Option.some.inj (hcopy.symm.trans hpage')]
        exact (stored_clean hstored).2
    · exact .same (hcopy.trans (if_neg hp)) fun bytes hstands => hstands.withCache _
  | evicted _ _ _ hh hpage hstore => exact he.fate_evicted hb hh hpage hstore p
  | @written q h page store hh hpage hdirty hstore =>
    have hcopy : e.cache.copy? q = some page := (Cache.copy?_eq_of_handle? hh).trans hpage
    have hid : page.id = q := hb.id_of_copy hcopy
    have hafter := hb.copy?_setPage hh page.markClean p
    by_cases hp : p = q
    · subst hp
      rw [if_pos rfl] at hafter
      refine .written hcopy hdirty ⟨hid ▸ hstore.stands he rfl rfl, fun copy hcopy' => ?_⟩
      rw [← Option.some.inj (hafter.symm.trans hcopy')]
      rfl
    · exact .same (hafter.trans (if_neg hp)) fun bytes hstands => hstore.stands_of_ne he rfl rfl (hid ▸ hp) hstands
  | @changed h page page' hpage hid =>
    have hnot : e.cache.handle? p ≠ some h := fun heq => hother h rfl (Cache.handle?_eq_some_iff.1 heq).2
    have hcopy := hb.toSound.copy?_setPage_of_ne (Cache.pageOf?_of_page? hpage hid) hnot page'
    exact .same hcopy fun bytes hstands => hstands.withCache _
  | appended hfd hf =>
    refine .same rfl ?_
    rintro bytes ⟨⟨g, hg, hhas⟩, hbytes⟩
    obtain ⟨hfile, hsame⟩ := he.diskBytes?_appended hfd hf hg hhas
    exact ⟨hfile, hsame.trans hbytes⟩

theorem Fate.rests (hfate : Fate p e e') (hrests : Rests p bytes e) : Rests p bytes e' := by
  cases hfate with
  | same hcopy hplace => exact ⟨hplace bytes hrests.toStands, hcopy ▸ hrests.clean⟩
  | written hcopy hdirty => simp [HeapPage.isDirty, hrests.clean _ hcopy] at hdirty
  | moved _ hafter hplace => exact ⟨hplace bytes hrests.toStands, hafter⟩

theorem Fate.safe (hfate : Fate p e e') (hdirty : page.isDirty = true) (hsafe : Safe p page e) : Safe p page e' := by
  rcases hsafe with hcopy | hrests
  · cases hfate with
    | same hsame => exact Or.inl (hsame.trans hcopy)
    | written hcopy' _ hrests =>
      obtain rfl := Option.some.inj (hcopy.symm.trans hcopy')
      exact Or.inr hrests
    | moved hbefore => exact absurd (hbefore page hcopy) (by simp [hdirty])
  · exact Or.inr (hfate.rests hrests)

/-! ### Any number of steps -/

theorem PoolSteps.tablesOpen (hsteps : PoolSteps may e log wanted e') (he : e.TablesOpen) : e'.TablesOpen :=
  hsteps.of_step (P := fun _ e' => e'.TablesOpen) he fun hbefore hstep _ => hstep.tablesOpen hbefore

/-- What no step changes is kept from step to step, if a page that is not changed goes by its fate. -/
theorem PoolSteps.of_fate {P : Engine → Prop} (hsteps : PoolSteps may e log wanted e') (he : e.TablesOpen)
    (hb : e.cache.Bounded) (hother : ∀ h, may (.change h) → h.page ≠ p) (hstart : P e)
    (hfate : ∀ {e₁ e₂}, Fate p e₁ e₂ → P e₁ → P e₂) : P e' := by
  have hall := hsteps.of_step (P := fun _ e' => (e'.TablesOpen ∧ e'.cache.Bounded) ∧ P e') ⟨⟨he, hb⟩, hstart⟩
    fun ⟨⟨htables, hbounded⟩, hp⟩ hstep hwork =>
      ⟨⟨hstep.tablesOpen htables, hstep.bounded hbounded⟩,
        hfate (hstep.fate htables hbounded fun h heq => hother h (hwork _ heq)) hp⟩
  exact hall.2

theorem PoolSteps.safe (hsteps : PoolSteps may e log wanted e') (he : e.TablesOpen) (hb : e.cache.Bounded)
    (hother : ∀ h, may (.change h) → h.page ≠ p) (hcopy : e.cache.copy? p = some page) (hdirty : page.isDirty = true) :
    Safe p page e' :=
  hsteps.of_fate he hb hother (Or.inl hcopy) fun hfate => hfate.safe hdirty

/-- A page that is written on the way rests on the disk in the end. -/
theorem Saves.rests (hsaves : Saves may h page e e') (he : e.TablesOpen) (hb : e.cache.Bounded)
    (hother : ∀ h', may (.change h') → h'.page ≠ h.page) : Rests h.page page.block.bytes e' := by
  obtain ⟨e₁, e₂, hbefore, hwritten, hafter⟩ := hsaves
  have he₁ := hbefore.tablesOpen he
  have hb₁ := hbefore.bounded hb
  -- From the write on the page rests, and no later step takes that away.
  have hrests : Rests h.page page.block.bytes e₂ := by
    obtain ⟨hh, hpage, -, store, hputs, rfl⟩ := hwritten
    have hid := hb₁.id_of_copy ((Cache.copy?_eq_of_handle? hh).trans hpage)
    refine ⟨hid ▸ hputs.stands he₁ rfl rfl, fun copy hcopy => ?_⟩
    rw [hb₁.copy?_setPage hh, if_pos rfl] at hcopy
    rw [← Option.some.inj hcopy]
    rfl
  exact hafter.of_fate (hwritten.step.tablesOpen he₁) (hwritten.bounded hb₁) hother hrests Fate.rests

/-- The page of an object is written to its file on the way; if all tables are open, its bytes are on the disk in the
end. -/
structure Flushed (due : HeapPage → Prop) (h : Handle) (page : HeapPage) (e e' : Engine) : Prop where
  saves : Saves (Flushing due) h page e e'
  bytes : e.TablesOpen → e'.diskBytes? h.page = some page.block.bytes

theorem Saves.flushed {due : HeapPage → Prop} (hsaves : Saves (Flushing due) h page e e') (hb : e.cache.Bounded) :
    Flushed due h page e e' :=
  ⟨hsaves, fun he => (hsaves.rests he hb fun _ hchange => hchange.elim).bytes⟩

end Engine

end HeapStore
