import HeapStore.Proofs.Engine.Updates
import HeapStore.Proofs.Lock.Modes

/-!
# Pages through the cache, and what they leave unchanged

Every operation that brings a page to a transaction or to a disk leaves all contents as they are, whether
it succeeds or fails: a write-back (`Op.ends_writeBack`), an eviction (`Op.ends_evict`), a load
(`Op.ends_fetch`), `getPage` (`Op.ends_getPage`), the flushes (`Op.ends_flushWhere`) and the end of a
transaction (`Op.ends_commit`).

`getPage` also takes a lock. It changes the locks of its own transaction only, and lowers none of them:
when it fails, it gives back no more than it took (`Engine.Quiet`). A page that somebody else holds
exclusively is refused before anything is read (`Op.ends_getPage_refused`).
-/

namespace HeapStore

namespace Engine

/-- A change that keeps all contents, and of the locks adds at most some of the transaction's own. -/
structure Quiet (txn : TxnId) (e e' : Engine) : Prop extends Keeps e e' where
  locks : LockTable.Gains txn e.locks e'.locks

variable {txn : TxnId} {e e' : Engine}

theorem Keeps.quiet (h : e.Keeps e') (hlocks : e'.locks = e.locks) : Quiet txn e e' :=
  ⟨h, hlocks ▸ .refl txn e.locks⟩

theorem Consistent.quiet_refl (he : e.Consistent) (txn : TxnId) : Quiet txn e e := he.keeps_refl.quiet rfl

theorem Quiet.trans {e'' : Engine} (h : Quiet txn e e') (h' : Quiet txn e' e'') : Quiet txn e e'' :=
  ⟨h.toKeeps.trans h'.toKeeps, h.locks.trans h'.locks⟩

theorem Consistent.quiet_locks (he : e.Consistent) {locks : LockTable} (h : e.locks.Gains txn locks) :
    Quiet txn e { e with locks } :=
  ⟨he.keeps_locks locks, h⟩

theorem Quiet.release (h : Quiet txn e e') {p : PageId} (hp : e.locks.holds p txn = false) :
    Quiet txn e { e' with locks := (e'.locks.release p txn).2 } := by
  have hnone : e.locks.mode? p txn = none := by simpa [LockTable.holds] using hp
  exact ⟨h.toKeeps.trans (h.consistent.keeps_locks _), h.locks.release_of_not_held hnone⟩

end Engine

namespace Op

open Engine

variable {e : Engine} {p : PageId} {h : Handle} {page : HeapPage} {txn : TxnId}

/-! ### Writing back -/

/-- The copy of `p` counts as unchanged now; all else in the cache is as before. -/
structure Cleaned (p : PageId) (page : HeapPage) (e e' : Engine) : Prop extends Keeps e e' where
  locks : e'.locks = e.locks
  handles : ∀ q, e'.cache.handle? q = e.cache.handle? q
  copies : ∀ q, e'.cache.copy? q = if q = p then some page.markClean else e.cache.copy? q

theorem ends_writeBack (he : e.Consistent) (hh : e.cache.handle? p = some h)
    (hcopy : e.cache.copy? p = some page) :
    Ends (writeBack h) e (fun _ e' => Cleaned p page e e') fun _ _ => False := by
  obtain ⟨entry, f, ht, hf, hhas⟩ := he.exists_entry_of_copy hcopy
  have hpage : e.cache.page? h = some page := (Cache.copy?_eq_of_handle? hh).symm.trans hcopy
  have hid := he.sound.id_of_copy hcopy
  unfold writeBack setPage modifyCache
  simp only [ends_bind, ends_page hpage, hid, ends_tableFile ht, ends_onFiles,
    FileOp.ends_writeBlock hf hhas, ends_modify]
  exact ⟨he.keeps_writeBack hh hcopy ht hf, rfl, fun q => rfl, he.sound.copy?_setPage hh page.markClean⟩

theorem ends_writeBackIfDirty (he : e.Consistent) (hh : e.cache.handle? p = some h)
    (hcopy : e.cache.copy? p = some page) :
    Ends (writeBackIfDirty h) e (fun _ e' => Cleaned p page e e') fun _ _ => False := by
  have hpage : e.cache.page? h = some page := (Cache.copy?_eq_of_handle? hh).symm.trans hcopy
  unfold writeBackIfDirty
  simp only [ends_bind, ends_page hpage]
  split
  · exact ends_writeBack he hh hcopy
  · next hclean =>
    rw [ends_pure]
    have hsame : page.markClean = page := by
      have hnone : page.dirtiedBy = none := by simpa [HeapPage.isDirty] using hclean
      unfold HeapPage.markClean
      rw [← hnone]
    refine ⟨he.keeps_refl, rfl, fun q => rfl, ?_⟩
    intro q
    split
    · next heq => rw [heq, hsame, hcopy]
    · rfl

/-! ### Making room -/

/-- Contents and locks are kept, and no page is newly cached. -/
structure Evicted (e e' : Engine) : Prop extends Keeps e e' where
  locks : e'.locks = e.locks
  missing : ∀ q, e.cache.handle? q = none → e'.cache.handle? q = none

theorem evicted_refl (he : e.Consistent) : Evicted e e := ⟨he.keeps_refl, rfl, fun _ hq => hq⟩

theorem handle?_remove (he : e.Consistent) (p : PageId) {q : PageId} (hq : e.cache.handle? q = none) :
    (e.cache.remove p).handle? q = none := by
  refine (he.sound.remove p).handle?_eq_none ?_
  rw [he.sound.copy?_remove, Cache.copy?_eq_none hq]
  split <;> rfl

/-- An eviction writes its victim back before it gives it up. It fails only for want of a victim. -/
theorem ends_evict (he : e.Consistent) :
    Ends evict e (fun _ e' => Evicted e e') fun _ e' => Evicted e e' := by
  unfold evict modifyCache
  rw [ends_bind, ends_get]
  cases e.cache.victim? with
  | none => exact evicted_refl he
  | some p =>
    dsimp only
    rw [ends_bind, ends_get]
    cases hh : e.cache.handle? p with
    | none =>
      have hnone := Cache.copy?_eq_none hh
      dsimp only
      rw [ends_modify]
      refine ⟨he.keeps_remove p fun page hcopy => ?_, rfl, fun q hq => handle?_remove he p hq⟩
      rw [hnone] at hcopy
      simp at hcopy
    | some h =>
      obtain ⟨page, -, hcopy, -⟩ := he.sound.exists_copy hh
      simp only [ends_bind, ends_modify]
      apply (ends_writeBackIfDirty he hh hcopy).mono_ok
      intro _ e' hclean
      have he' := hclean.consistent
      refine ⟨hclean.toKeeps.trans (he'.keeps_remove p fun page' hcopy' => ?_), hclean.locks,
        fun q hq => handle?_remove he' p ((hclean.handles q).trans hq)⟩
      rw [hclean.copies, if_pos rfl] at hcopy'
      exact Option.some.inj hcopy' ▸ rfl

theorem ends_ensureRoom (he : e.Consistent) :
    Ends ensureRoom e (fun _ e' => Evicted e e') fun _ e' => Evicted e e' := by
  unfold ensureRoom
  rw [ends_bind, ends_get]
  split
  · exact ends_evict he
  · exact evicted_refl he

/-! ### Coming to a page -/

theorem ends_fetch (he : e.Consistent) (p : PageId) :
    Ends (fetch p) e (fun h e' => e.Keeps e' ∧ e'.locks = e.locks ∧ e'.cache.handle? p = some h)
      fun _ e' => e.Keeps e' ∧ e'.locks = e.locks := by
  unfold fetch
  rw [ends_bind, ends_get]
  cases hh : e.cache.handle? p with
  | some h =>
    unfold modifyCache
    dsimp only
    rw [ends_bind, ends_modify, ends_pure]
    exact ⟨he.keeps_copies (he.sound.touch p) fun q => rfl, rfl, hh⟩
  | none =>
    dsimp only
    rw [ends_bind]
    refine (ends_ensureRoom he).mono (fun _ e₁ h₁ => ?_) fun _ e₁ h₁ => ⟨h₁.toKeeps, h₁.locks⟩
    have he₁ := h₁.consistent
    rw [ends_bind]
    cases ht : e₁.catalog.byId[p.table]? with
    | none =>
      rw [ends_tableFile_of_none ht]
      exact ⟨h₁.toKeeps, h₁.locks⟩
    | some entry =>
      obtain ⟨f, hf, -⟩ := he₁.opened _ _ ht
      rw [ends_tableFile ht, ends_bind, ends_onFiles]
      apply (FileOp.ends_readPage hf p).mono
      · intro page s hs
        -- The file was read; what it holds is loaded.
        have hcount := he₁.keeps_store hs.2
        have he₂ := hcount.consistent
        have hread : ({ e₁ with store := s } : Engine).stored p = .ok page := by
          obtain ⟨-, -, hstored⟩ := he₁.of_alike hcount.catalog hs.2
          rw [hstored, he₁.stored_eq ((file?_of_entry ht).trans hf), hs.1]
        obtain ⟨hload, hhandle⟩ := he₂.keeps_load hread (h₁.missing p hh)
        simp only [ends_bind, ends_get, ends_modify, ends_pure]
        exact ⟨(h₁.toKeeps.trans hcount).trans hload, h₁.locks, hhandle⟩
      · intro cause s hs
        exact ⟨h₁.toKeeps.trans (he₁.keeps_store hs.2), h₁.locks⟩

theorem ends_lock (e : Engine) (txn : TxnId) (p : PageId) (mode : LockMode) :
    Ends (lock txn p mode) e
      (fun _ e' => ∃ locks, e' = { e with locks } ∧ e.locks.Gains txn locks ∧
        ∃ held, locks.mode? p txn = some held ∧ mode ≤ held)
      fun cause e' => cause = .transactionAborted txn p ∧
        ∃ locks, e' = { e with locks } ∧ e.locks.Gains txn locks := by
  have hgains : e.locks.Gains txn (e.locks.acquireAlone p txn mode).2 := .acquireAlone
  unfold lock
  simp only [ends_bind, ends_get, ends_modify]
  split
  · next hgranted =>
    rw [ends_pure]
    exact ⟨_, rfl, hgains, LockTable.mode?_acquireAlone_of_granted (Prod.ext hgranted rfl)⟩
  · rw [ends_throw]
    exact ⟨rfl, _, rfl, hgains⟩

/-- What `getPage` gives is the cached copy of the page, locked as was asked. -/
theorem ends_getPage (he : e.Consistent) (txn : TxnId) (p : PageId) (access : Access) :
    Ends (getPage txn p access) e
      (fun h e' => Quiet txn e e' ∧ e'.cache.handle? p = some h ∧
        ∃ held, e'.locks.mode? p txn = some held ∧ access.lockMode ≤ held)
      fun _ e' => Quiet txn e e' := by
  unfold getPage holdsLock
  simp only [ends_bind, ends_get, ends_pure, ends_tryCatch]
  apply (ends_lock e txn p access.lockMode).mono
  · rintro - - ⟨locks, rfl, hgains, hheld⟩
    have hlocked := he.quiet_locks hgains
    apply (ends_fetch hlocked.consistent p).mono
    · intro h e' hfetch
      obtain ⟨hkeeps, hlocks, hhandle⟩ := hfetch
      refine ⟨hlocked.trans (hkeeps.quiet hlocks), hhandle, ?_⟩
      rw [hlocks]
      exact hheld
    · intro cause e' hfetch
      obtain ⟨hkeeps, hlocks⟩ := hfetch
      have hquiet : Quiet txn e e' := hlocked.trans (hkeeps.quiet hlocks)
      -- A lock that was not held before is given back.
      cases hbefore : e.locks.holds p txn with
      | true => exact hquiet
      | false => exact hquiet.release hbefore
  · rintro cause - ⟨-, locks, rfl, hgains⟩
    exact he.quiet_locks hgains

/-- A page that somebody else holds exclusively cannot be had, and nothing of it is read. -/
theorem ends_getPage_refused (hs : e.locks.Safe) {owner : TxnId}
    (howner : e.locks.mode? p owner = some .exclusive) (hne : txn ≠ owner) (access : Access) :
    Ends (getPage txn p access) e (fun _ _ => False)
      fun cause e' => cause = .transactionAborted txn p ∧
        e' = { e with locks := (e.locks.acquireAlone p txn access.lockMode).2 } := by
  have hrefused := hs.acquireAlone_refused howner hne access.lockMode
  unfold getPage holdsLock lock
  simp only [ends_bind, ends_get, ends_pure, ends_modify, hrefused]
  exact ⟨rfl, rfl⟩

/-! ### Flushes -/

/-- The objects of a list were flushed: none of their pages is due any more. -/
structure Flushed (due : HeapPage → Bool) (handles : List Handle) (e e' : Engine) : Prop
    extends Keeps e e' where
  locks : e'.locks = e.locks
  cached : ∀ q, e'.cache.handle? q = e.cache.handle? q
  notDue : ∀ h ∈ handles, ∀ page, e'.cache.copy? h.page = some page → due page = false

/-- What a later flush marks is marked as unchanged, so what an earlier one flushed stays flushed. -/
theorem Flushed.cons {e' e'' : Engine} {due : HeapPage → Bool} {rest : List Handle}
    (hdue : ∀ page, due page = true → page.dirtiedBy ≠ none) (h₁ : Flushed due [h] e e')
    (h₂ : Flushed due rest e' e'') : Flushed due (h :: rest) e e'' := by
  refine ⟨h₁.toKeeps.trans h₂.toKeeps, h₂.locks.trans h₁.locks,
    fun q => (h₂.cached q).trans (h₁.cached q), ?_⟩
  intro handle hmem page hcopy
  cases List.mem_cons.1 hmem with
  | inr hrest => exact h₂.notDue handle hrest page hcopy
  | inl heq =>
    subst heq
    rw [Bool.eq_false_iff]
    intro hdue'
    have hbefore := h₂.dirty _ _ hcopy (hdue page hdue')
    rw [h₁.notDue handle List.mem_cons_self page hbefore] at hdue'
    simp at hdue'

theorem Cleaned.flushed {e' : Engine} {due : HeapPage → Bool}
    (hdue : ∀ page, due page = true → page.dirtiedBy ≠ none) (hclean : Cleaned h.page page e e') :
    Flushed due [h] e e' := by
  refine ⟨hclean.toKeeps, hclean.locks, hclean.handles, ?_⟩
  intro handle hmem page' hcopy
  obtain rfl := List.mem_singleton.1 hmem
  rw [hclean.copies, if_pos rfl] at hcopy
  obtain rfl := Option.some.inj hcopy
  rw [Bool.eq_false_iff]
  intro hdue'
  exact hdue _ hdue' rfl

theorem ends_flushOne (due : HeapPage → Bool) (hdue : ∀ page, due page = true → page.dirtiedBy ≠ none)
    (he : e.Consistent) (hh : e.cache.handle? h.page = some h) :
    Ends (do if due (← Op.page h) then writeBack h) e (fun _ e' => Flushed due [h] e e')
      fun _ _ => False := by
  obtain ⟨page, hpage, hcopy, -⟩ := he.sound.exists_copy hh
  rw [ends_bind, ends_page hpage]
  split
  · apply (ends_writeBack he hh hcopy).mono_ok
    intro _ e' hclean
    exact hclean.flushed hdue
  · next hnot =>
    rw [ends_pure]
    refine ⟨he.keeps_refl, rfl, fun _ => rfl, ?_⟩
    intro handle hmem page' hcopy'
    obtain rfl := List.mem_singleton.1 hmem
    rw [hcopy] at hcopy'
    obtain rfl := Option.some.inj hcopy'
    simpa using hnot

theorem ends_flushList (due : HeapPage → Bool) (hdue : ∀ page, due page = true → page.dirtiedBy ≠ none)
    (handles : List Handle) (he : e.Consistent) (hcached : ∀ h ∈ handles, e.cache.handle? h.page = some h) :
    Ends (handles.forM fun h => do if due (← Op.page h) then writeBack h) e
      (fun _ e' => Flushed due handles e e') fun _ _ => False := by
  induction handles generalizing e with
  | nil => exact ⟨he.keeps_refl, rfl, fun _ => rfl, by simp⟩
  | cons h rest ih =>
    rw [List.forM_eq_forM, List.forM_cons, ends_bind]
    apply (ends_flushOne due hdue he (hcached h List.mem_cons_self)).mono_ok
    intro _ e₁ hfirst
    have hrest : ∀ h' ∈ rest, e₁.cache.handle? h'.page = some h' := fun h' hmem =>
      (hfirst.cached _).trans (hcached h' (List.mem_cons_of_mem _ hmem))
    exact (ih hfirst.consistent hrest).mono_ok fun _ e' h' => hfirst.cons hdue h'

theorem mem_handles : h ∈ e.cache.handles ↔ e.cache.handle? h.page = some h := by
  obtain ⟨p, o⟩ := h
  rw [Cache.handle?_eq_some_iff, Cache.handles, List.mem_map]
  constructor
  · rintro ⟨⟨q, o'⟩, hmem, heq⟩
    obtain ⟨rfl, rfl⟩ := Handle.mk.inj heq
    exact ⟨Std.ExtTreeMap.mem_toList_iff_getElem?_eq_some.1 hmem, rfl⟩
  · rintro ⟨hresident, -⟩
    exact ⟨(p, o), Std.ExtTreeMap.mem_toList_iff_getElem?_eq_some.2 hresident, rfl⟩

theorem ends_flushWhere (he : e.Consistent) (due : HeapPage → Bool)
    (hdue : ∀ page, due page = true → page.dirtiedBy ≠ none) :
    Ends (flushWhere due) e
      (fun _ e' => e.Keeps e' ∧ e'.locks = e.locks ∧
        ∀ q page, e'.cache.copy? q = some page → due page = false)
      fun _ _ => False := by
  unfold flushWhere
  rw [ends_bind, ends_get]
  apply (ends_flushList due hdue _ he fun h hmem => mem_handles.1 hmem).mono_ok
  intro _ e' hflushed
  refine ⟨hflushed.toKeeps, hflushed.locks, ?_⟩
  intro q page hcopy
  obtain ⟨handle, hhandle, -⟩ := Cache.exists_handle hcopy
  have hpage : handle.page = q := (Cache.handle?_eq_some_iff.1 hhandle).2
  have hmem : handle ∈ e.cache.handles := mem_handles.2 (by rw [hpage, ← hflushed.cached, hhandle])
  exact hflushed.notDue handle hmem page (by rw [hpage, hcopy])

theorem ends_flushTxn (he : e.Consistent) (txn : TxnId) :
    Ends (flushTxn txn) e
      (fun _ e' => e.Keeps e' ∧ e'.locks = e.locks ∧
        ∀ q page, e'.cache.copy? q = some page → page.dirtiedBy ≠ some txn)
      fun _ _ => False := by
  have hdue : ∀ page : HeapPage, decide (page.dirtiedBy = some txn) = true → page.dirtiedBy ≠ none := by
    intro page hpage
    simp only [decide_eq_true_eq] at hpage
    simp [hpage]
  apply (ends_flushWhere he _ hdue).mono_ok
  intro _ e' h
  obtain ⟨hkeeps, hlocks, hclean⟩ := h
  exact ⟨hkeeps, hlocks, fun q page hcopy => of_decide_eq_false (hclean q page hcopy)⟩

theorem ends_flushAll (he : e.Consistent) :
    Ends flushAll e (fun _ e' => e.Keeps e' ∧ e'.locks = e.locks) fun _ _ => False := by
  have hdue : ∀ page : HeapPage, page.dirtiedBy.isSome = true → page.dirtiedBy ≠ none :=
    fun _ => Option.isSome_iff_ne_none.1
  exact (ends_flushWhere he _ hdue).mono_ok fun _ e' h => ⟨h.1, h.2.1⟩

theorem ends_flushPage (he : e.Consistent) (p : PageId) :
    Ends (flushPage p) e (fun _ e' => e.Keeps e' ∧ e'.locks = e.locks) fun _ _ => False := by
  unfold flushPage
  rw [ends_bind, ends_get]
  cases hh : e.cache.handle? p with
  | none => exact ⟨he.keeps_refl, rfl⟩
  | some h =>
    obtain ⟨page, -, hcopy, -⟩ := he.sound.exists_copy hh
    dsimp only
    rw [ends_bind]
    apply (ends_writeBackIfDirty he hh hcopy).mono_ok
    intro _ e' hclean
    rw [ends_pure]
    exact ⟨hclean.toKeeps, hclean.locks⟩

/-! ### The end of a transaction -/

theorem ends_commit (he : e.Consistent) (txn : TxnId) :
    Ends (commit txn) e
      (fun _ e' => e.Keeps e' ∧ e'.locks = e.locks.releaseAll txn ∧
        ∀ q page, e'.cache.copy? q = some page → page.dirtiedBy ≠ some txn)
      fun _ _ => False := by
  unfold commit releaseAll
  simp only [ends_bind, ends_tryCatch, ends_modify]
  apply (ends_flushTxn he txn).mono_ok
  intro _ e' h
  obtain ⟨hkeeps, hlocks, hclean⟩ := h
  rw [hlocks]
  exact ⟨hkeeps.trans (hkeeps.consistent.keeps_locks _), rfl, hclean⟩

end Op

end HeapStore
