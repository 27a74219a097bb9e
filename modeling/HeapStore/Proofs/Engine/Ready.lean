import HeapStore.Proofs.Engine.Faults
import HeapStore.Proofs.Engine.Latest

/-!
# Engines whose pages nobody holds

An engine is `Ready` if its cached copies are the latest pages, none of which a caller holds, and if there is
room for a page at all. What such an engine does is said by the latest pages and the locks alone: fetching
gives the latest page, or fails as reading it would, and never for want of room (`Op.ends_fetch_ready`);
flushing changes nothing (`Op.ends_flushWhere_ready`).

All changes keep an engine ready: moves (`Move.ready`), appending a page (`Ready.appended`) and replacing the
page of a cached object (`Ready.setPage`).
-/

namespace HeapStore

namespace Disk

variable {d : Disk} {file other : List String} {offset : Nat} {data : List UInt8}

theorem isSome_contents?_write (h : (d.contents? other).isSome = true) :
    ((d.write file offset data).contents? other).isSome = true := by
  rw [contents?_write]
  split
  · rfl
  · exact h

end Disk

/-! ### Failures that have nothing to do with room -/

namespace HeapPage

theorem decode_ne_full (p : PageId) (s : Schema) (bytes : List UInt8) :
    decode p s bytes ≠ .error .bufferPoolFull := fun h => Bool.noConfusion (decode_fault h)

theorem insert_ne_full (page : HeapPage) (t : Tuple) : page.insert t ≠ .error .bufferPoolFull := by
  unfold insert
  split
  · simp
  · split <;> simp

theorem delete_ne_full (page : HeapPage) (r : Option RecordId) : page.delete r ≠ .error .bufferPoolFull := by
  cases r with
  | none => simp [delete]
  | some r =>
    unfold delete
    dsimp only
    split
    · simp
    · split
      · simp
      · split <;> simp

end HeapPage

namespace Engine

theorem latest_ne_full (e : Engine) (p : PageId) : e.latest p ≠ .error .bufferPoolFull := by
  unfold latest
  split
  · simp
  · split
    · exact HeapPage.decode_ne_full p _ _
    · simp

/-! ### Ready engines -/

structure Ready (e : Engine) : Prop extends Consistent e where
  /-- The cached copies are the latest pages. -/
  views : ∀ p page, e.cache.copy? p = some page → ∃ q, e.latest p = .ok q ∧ q.view = page.view
  tracked : e.cache.Tracked
  unheld : e.cache.Unheld
  room : 0 < e.cache.capacity
  /-- The files of the tables exist. -/
  present : ∀ t f, e.file? t = some f → (e.store.disk.contents? f.path).isSome = true

/-- The object is the cached copy of the page, which looks like this. -/
structure Shows (e : Engine) (p : PageId) (h : Handle) (v : HeapPage.View) : Prop where
  handle : e.cache.handle? p = some h
  page : ∃ page, e.cache.page? h = some page ∧ e.cache.copy? p = some page ∧ page.view = v

/-- From one state to another that is ready and agrees with it. -/
structure Calm (e e' : Engine) : Prop where
  agrees : Agrees e e'
  ready : e'.Ready

variable {e e' e'' : Engine} {p q : PageId} {page page' : HeapPage} {h : Handle} {f g : HeapFile} {t : TableId}
  {entry : TableEntry}

theorem Ready.calm_locks (he : e.Ready) (locks : LockTable) : Calm e { e with locks } :=
  have hagrees := Agrees.locks e locks
  ⟨hagrees, (he.keeps_locks locks).consistent, fun p page hcopy => hagrees.latest_eq p ▸ he.views p page hcopy,
    he.tracked, he.unheld, he.room, he.present⟩

/-! ### Moves -/

/-- Copies that look as before are the latest pages if the engines agree. -/
theorem Ready.views_of_agrees (he : e.Ready) (hagrees : Agrees e e')
    (hcopies : ∀ p page, e'.cache.copy? p = some page →
      ∃ old, e.cache.copy? p = some old ∧ old.view = page.view) (p : PageId) (page : HeapPage)
    (hcopy : e'.cache.copy? p = some page) : ∃ q, e'.latest p = .ok q ∧ q.view = page.view := by
  obtain ⟨old, hold, hsame⟩ := hcopies p page hcopy
  obtain ⟨q, hq, hview⟩ := he.views p old hold
  exact ⟨q, (hagrees.latest_eq p).trans hq, hview.trans hsame⟩

theorem Ready.present_of_sameFiles (he : e.Ready) (hsame : e.SameFiles e')
    (hdisk : ∀ file, (e.store.disk.contents? file).isSome = true → (e'.store.disk.contents? file).isSome = true)
    (t : TableId) (f : HeapFile) (hf : e'.file? t = some f) :
    (e'.store.disk.contents? f.path).isSome = true := by
  obtain ⟨g, hg, heq⟩ := hsame.exists_file' hf
  obtain ⟨-, -, hpath, -⟩ := HeapFile.uncounted_eq_iff.1 heq
  exact hdisk f.path (hpath ▸ he.present t g hg)

theorem Move.ready (hmove : Move e e') (he : e.Ready) : e'.Ready := by
  have hkeeps := hmove.keeps he.toConsistent
  have hviews := he.views_of_agrees (hmove.agrees he.toConsistent)
  have hpresent := he.present_of_sameFiles hkeeps.toSameFiles
  cases hmove with
  | counted hs =>
    refine ⟨hkeeps.consistent, hviews fun p page hcopy => ⟨page, hcopy, rfl⟩, he.tracked, he.unheld, he.room,
      hpresent fun file hfile => ?_⟩
    rw [hs.disk]
    exact hfile
  | touched hp =>
    exact ⟨hkeeps.consistent, hviews fun p page hcopy => ⟨page, hcopy, rfl⟩, he.tracked.touch hp, he.unheld,
      he.room, hpresent fun file hfile => hfile⟩
  | @written p h page entry f hh hcopy hdirty ht hf =>
    refine ⟨hkeeps.consistent, hviews fun q page' hcopy' => ?_, he.tracked.setPage h page.markClean,
      he.unheld.setPage h page.markClean, he.room, hpresent fun file hfile => Disk.isSome_contents?_write hfile⟩
    have hcopies := he.sound.copy?_setPage hh page.markClean q
    by_cases hq : q = p
    · subst hq
      rw [if_pos rfl] at hcopies
      obtain rfl := Option.some.inj (hcopy'.symm.trans hcopies)
      exact ⟨page, hcopy, HeapPage.view_markClean.symm⟩
    · rw [if_neg hq] at hcopies
      exact ⟨page', hcopies.symm.trans hcopy', rfl⟩
  | @removed p hclean =>
    obtain ⟨-, -, hcapacity⟩ := e.cache.remove_eq p
    refine ⟨hkeeps.consistent, hviews fun q page hcopy => ⟨page, ?_, rfl⟩, he.tracked.remove p,
      he.unheld.remove p, hcapacity.symm ▸ he.room, hpresent fun file hfile => hfile⟩
    have hcopies := he.sound.copy?_remove p q
    by_cases hq : q = p
    · rw [if_pos hq] at hcopies
      exact absurd (hcopy.symm.trans hcopies) (by simp)
    · rw [if_neg hq] at hcopies
      exact hcopies.symm.trans hcopy
  | @loaded p page hpage hmissing =>
    obtain ⟨-, hid, -⟩ := he.fits_stored hpage
    have hclean : e.cache.changed? p = none := by
      rw [Cache.changed?, Cache.copy?_eq_none hmissing, Option.filter_none]
    have hlatest : e.latest p = .ok page := (he.latest_eq_stored hclean).trans hpage
    have hmissing' : e.cache.handle? page.id = none := hid ▸ hmissing
    have hagrees := (Move.loaded hpage hmissing).agrees he.toConsistent
    refine ⟨hkeeps.consistent, fun q page' hcopy => ?_, he.tracked.load hmissing', he.unheld.load hmissing',
      Cache.capacity_load hmissing' ▸ he.room, hpresent fun file hfile => hfile⟩
    have hcopies := he.sound.copy?_load hmissing' q
    by_cases hq : q = page.id
    · rw [if_pos hq] at hcopies
      obtain rfl := Option.some.inj (hcopy.symm.trans hcopies)
      rw [hq, hid]
      exact ⟨page', (hagrees.latest_eq p).trans hlatest, rfl⟩
    · rw [if_neg hq] at hcopies
      obtain ⟨old, hold, hview⟩ := he.views q page' (hcopies.symm.trans hcopy)
      exact ⟨old, (hagrees.latest_eq q).trans hold, hview⟩

theorem Moves.calm (hmoves : Moves e e') (he : e.Ready) : Calm e e' := by
  refine ⟨hmoves.agrees he.toConsistent, ?_⟩
  induction hmoves with
  | refl => exact he
  | tail _ hmove ih => exact hmove.ready ih

/-! ### Changes -/

theorem latest_of_has (hf : e.file? p.table = some f) (hhas : f.Has p) :
    e.latest p = HeapPage.decode p f.schema (e.latestBlock f p.number) := by
  rw [latest, hf]
  exact if_pos hhas.2

theorem Ready.appended (he : e.Ready) (ht : e.catalog.byId[t]? = some entry)
    (hf : e.store.file? entry.file = some f) : (e.appended entry.file f).Ready := by
  have hfile : e.file? t = some f := (file?_of_entry ht).trans hf
  have htables := he.toTablesOpen
  refine ⟨(he.grows_append ht hf).consistent, fun q page hcopy => ?_, he.tracked, he.unheld, he.room,
    fun t' g hg => ?_⟩
  · obtain ⟨-, g, hg, -, hhas⟩ := he.fits q page hcopy
    obtain ⟨last, hlast, hview⟩ := he.views q page hcopy
    -- The new page is not cached, so it is not this one.
    have hne : (⟨g.table, q.number⟩ : PageId) ≠ f.nextPage := by
      rintro heq
      have hq : q = f.nextPage := by rw [← heq, ← hhas.1]
      exact absurd ((he.copy?_nextPage hfile).symm.trans (hq ▸ hcopy)) (by simp)
    have hblock := he.latestBlock_appended ht hf hg q.number
    rw [if_neg hne] at hblock
    refine ⟨last, ?_, hview⟩
    rw [← hlast, latest_of_has hg hhas, ← hblock]
    by_cases heq : q.table = t
    · have hnow := file?_appended_self (f := f) htables ht
      rw [← heq] at hnow
      rw [heq, hfile] at hg
      obtain rfl := Option.some.inj hg
      rw [latest_of_has hnow (HeapFile.has_append_iff.2 (Or.inl hhas))]
      rfl
    · exact latest_of_has ((file?_appended_of_ne htables ht heq).trans hg) hhas
  · refine Disk.isSome_contents?_write ?_
    by_cases heq : t' = t
    · subst heq
      rw [file?_appended_self htables ht] at hg
      obtain rfl := Option.some.inj hg
      exact he.present t' f hfile
    · exact he.present t' g ((file?_appended_of_ne htables ht heq).symm.trans hg)

/-- The copy of a page is replaced by one of the same table that counts as changed. -/
theorem Ready.setPage (he : e.Ready) (hh : e.cache.handle? p = some h) (hcopy : e.cache.copy? p = some page)
    (hwf : page'.WellFormed) (hid : page'.id = p) (hschema : page'.schema = page.schema)
    (hdirty : page'.dirtiedBy ≠ none) : ({ e with cache := e.cache.setPage h page' } : Engine).Ready := by
  have hchanges := he.changes_setPage hh hcopy hwf hid hschema hdirty
  have hchanged := Cache.changed?_setPage he.sound hh hdirty
  refine ⟨hchanges.consistent, fun q page₁ hcopy₁ => ?_, he.tracked.setPage h page', he.unheld.setPage h page',
    he.room, he.present⟩
  obtain ⟨-, f, hf, hfschema, hhas⟩ := hchanges.consistent.fits q page₁ hcopy₁
  have hplace : (⟨f.table, q.number⟩ : PageId) = q := by rw [← hhas.1]
  rw [hchanges.copies] at hcopy₁
  rw [latest_of_has hf hhas, latestBlock, hplace, hchanged]
  by_cases hq : q = p
  · rw [if_pos hq] at hcopy₁ ⊢
    obtain rfl := Option.some.inj hcopy₁
    obtain ⟨read, hread, hview⟩ := hwf.decode_block_view
    rw [hid, ← hq, hfschema] at hread
    exact ⟨read, hread, hview⟩
  · rw [if_neg hq] at hcopy₁ ⊢
    obtain ⟨last, hlast, hview⟩ := he.views q page₁ hcopy₁
    rw [latest_of_has (show e.file? q.table = some f from hf) hhas, latestBlock, hplace] at hlast
    exact ⟨last, hlast, hview⟩

end Engine

namespace Op

open Engine

variable {e : Engine} {p : PageId}

/-! ### Fetching and flushing -/

/-- A fetch gives the latest page, or fails as reading it would; there always is room. -/
theorem ends_fetch_ready (he : e.Ready) (p : PageId) :
    Ends (fetch p) e
      (fun h e' => Calm e e' ∧ e'.locks = e.locks ∧ ∃ page, e.latest p = .ok page ∧ Shows e' p h page.view)
      fun cause e' => Calm e e' ∧ e'.locks = e.locks ∧ e.latest p = .error cause := by
  apply (ends_fetch_moves he.toConsistent p).mono
  · rintro h e' ⟨hmoves, hhandle⟩
    have hcalm := Moves.calm hmoves he
    obtain ⟨copy, hpage, hcopy, -⟩ := hcalm.ready.sound.exists_copy hhandle
    obtain ⟨page, hlatest, hview⟩ := hcalm.ready.views p copy hcopy
    exact ⟨hcalm, Moves.locks hmoves, page, (hcalm.agrees.latest_eq p).symm.trans hlatest, hhandle, copy, hpage,
      hcopy, hview.symm⟩
  · rintro cause e' (⟨-, -, hfull, hvictim⟩ | ⟨hmoves, hmissing, hstored⟩)
    · obtain ⟨victim, -, hsome, -⟩ := he.tracked.exists_victim he.unheld he.room hfull
      exact absurd (hvictim.symm.trans hsome) (by simp)
    · have hclean : e.cache.changed? p = none := by
        rw [Cache.changed?, Cache.copy?_eq_none hmissing, Option.filter_none]
      exact ⟨Moves.calm hmoves he, Moves.locks hmoves, (he.latest_eq_stored hclean).trans hstored⟩

theorem ends_flushWhere_ready (he : e.Ready) {due : HeapPage → Bool}
    (hdue : ∀ page, due page = true → page.dirtiedBy ≠ none) :
    Ends (flushWhere due) e
      (fun _ e' => Calm e e' ∧ e'.locks = e.locks ∧ ∀ q page, e'.cache.copy? q = some page → due page = false)
      fun _ _ => False := by
  apply ((ends_flushWhere_moves he.toConsistent hdue).and (ends_flushWhere he.toConsistent due hdue)).mono
  · rintro _ e' ⟨hmoves, -, hlocks, hclean⟩
    exact ⟨Moves.calm hmoves he, hlocks, hclean⟩
  · rintro _ _ ⟨hfalse, -⟩
    exact hfalse

end Op

end HeapStore
