import HeapStore.Proofs.Cache.Tracking
import HeapStore.Proofs.Engine.Pages
import Mathlib.Logic.Relation

/-!
# How the files and the cache move below a call

Fetching a page and flushing do a few things only to the files and the cache: a read is counted, a cached
page is accessed, a changed page is written to its file, a page that counts as unchanged is given up, a
page is loaded. `Engine.Move` has one constructor for each. What each of them keeps is kept by a fetch
(`Op.ends_fetch_moves`) and by a flush (`Op.ends_flushWhere_moves`); a fetch that fails tells why.
-/

namespace HeapStore

namespace Engine

/-- One thing that happens to the files and the cache. -/
inductive Move (e : Engine) : Engine → Prop
  /-- A page was read from its file, which only counts. -/
  | counted {s : FileStore} (hs : e.store.Alike s) : Move e { e with store := s }
  /-- A cached page is accessed. -/
  | touched {p : PageId} (hp : (e.cache.handle? p).isSome = true) : Move e { e with cache := e.cache.touch p }
  /-- A changed page is written to its file and counts as unchanged from then on. -/
  | written {p : PageId} {h : Handle} {page : HeapPage} {entry : TableEntry} {f : HeapFile}
      (hh : e.cache.handle? p = some h) (hcopy : e.cache.copy? p = some page) (hdirty : page.dirtiedBy ≠ none)
      (ht : e.catalog.byId[p.table]? = some entry) (hf : e.store.file? entry.file = some f) :
      Move e { e with
        store := e.store.put entry.file f p page.block
        cache := e.cache.setPage h page.markClean }
  /-- A page that counts as unchanged is given up. -/
  | removed {p : PageId} (hclean : ∀ page, e.cache.copy? p = some page → page.dirtiedBy = none) :
      Move e { e with cache := e.cache.remove p }
  /-- A page that is not cached is loaded. -/
  | loaded {p : PageId} {page : HeapPage} (hpage : e.stored p = .ok page) (hmissing : e.cache.handle? p = none) :
      Move e { e with cache := (e.cache.load page).2 }

/-- Any number of moves. -/
abbrev Moves : Engine → Engine → Prop := Relation.ReflTransGen Move

variable {e e' : Engine} {p : PageId}

theorem Move.keeps (h : Move e e') (he : e.Consistent) : e.Keeps e' := by
  cases h with
  | counted hs => exact he.keeps_store hs
  | @touched p hp => exact he.keeps_copies (he.sound.touch p) fun _ => rfl
  | written hh hcopy _ ht hf => exact he.keeps_writeBack hh hcopy ht hf
  | removed hclean => exact he.keeps_remove _ hclean
  | loaded hpage hmissing => exact (he.keeps_load hpage hmissing).1

theorem Moves.keeps (h : Moves e e') (he : e.Consistent) : e.Keeps e' := by
  induction h with
  | refl => exact he.keeps_refl
  | tail _ hmove ih => exact ih.trans (hmove.keeps ih.consistent)

theorem Move.locks (h : Move e e') : e'.locks = e.locks := by
  cases h <;> rfl

theorem Moves.locks (h : Moves e e') : e'.locks = e.locks := by
  induction h with
  | refl => rfl
  | tail _ hmove ih => exact hmove.locks.trans ih

/-- While a page is not cached, its file goes on to fail to give it. -/
theorem Keeps.stored_error (h : e.Keeps e') (hbefore : e.cache.handle? p = none)
    (hafter : e'.cache.handle? p = none) {cause : StorageError} (hcause : e'.stored p = .error cause) :
    e.stored p = .error cause := by
  have hcontent := h.content p
  rw [content_of_not_cached (Cache.copy?_eq_none hafter), content_of_not_cached (Cache.copy?_eq_none hbefore),
    hcause] at hcontent
  cases hstored : e.stored p with
  | ok page =>
    rw [hstored] at hcontent
    simp [Except.map] at hcontent
  | error cause' =>
    rw [hstored] at hcontent
    exact congrArg Except.error (Except.error.inj hcontent).symm

end Engine

namespace Op

open Engine

variable {e e' : Engine} {p : PageId} {h : Handle} {page : HeapPage}

/-! ### Writing back -/

theorem ends_writeBack_moves (he : e.Consistent) (hh : e.cache.handle? p = some h)
    (hcopy : e.cache.copy? p = some page) (hdirty : page.dirtiedBy ≠ none) :
    Ends (writeBack h) e (fun _ e' => Moves e e') fun _ _ => False := by
  obtain ⟨entry, f, ht, hf, hhas⟩ := he.exists_entry_of_copy hcopy
  have hpage : e.cache.page? h = some page := (Cache.copy?_eq_of_handle? hh).symm.trans hcopy
  have hid := he.sound.id_of_copy hcopy
  unfold writeBack setPage modifyCache
  simp only [ends_bind, ends_page hpage, hid, ends_tableFile ht, ends_onFiles,
    FileOp.ends_writeBlock hf hhas, ends_modify]
  exact .single (.written hh hcopy hdirty ht hf)

/-- A page is written back only if it counts as changed. -/
theorem ends_writeIfDue_moves {due : HeapPage → Bool} (hdue : ∀ page, due page = true → page.dirtiedBy ≠ none)
    (he : e.Consistent) (hh : e.cache.handle? p = some h) :
    Ends (do if due (← Op.page h) then writeBack h) e (fun _ e' => Moves e e') fun _ _ => False := by
  obtain ⟨page, hpage, hcopy, -⟩ := he.sound.exists_copy hh
  rw [ends_bind, ends_page hpage]
  split
  · next hchanged => exact ends_writeBack_moves he hh hcopy (hdue page hchanged)
  · exact .refl

theorem isDirty_due (page : HeapPage) (h : page.isDirty = true) : page.dirtiedBy ≠ none :=
  Option.isSome_iff_ne_none.1 h

/-! ### Fetching -/

/-- An eviction fails only for want of a victim, and then does nothing. -/
theorem ends_evict_moves (he : e.Consistent) :
    Ends evict e (fun _ e' => Moves e e' ∧ ∀ q, e.cache.handle? q = none → e'.cache.handle? q = none)
      fun cause e' => cause = .bufferPoolFull ∧ e' = e ∧ e.cache.victim? = none := by
  unfold evict modifyCache
  rw [ends_bind, ends_get]
  cases e.cache.victim? with
  | none => exact ⟨rfl, rfl, rfl⟩
  | some p =>
    dsimp only
    rw [ends_bind, ends_get]
    have hgone : ∀ (c : Cache) q, c.handle? q = none → (c.remove p).handle? q = none := by
      intro c q hq
      rw [Cache.handle?_remove_eq, hq, ite_self]
    cases hh : e.cache.handle? p with
    | none =>
      dsimp only
      rw [ends_modify]
      refine ⟨.single (.removed fun page hcopy => ?_), fun q hq => hgone _ q hq⟩
      rw [Cache.copy?_eq_none hh] at hcopy
      simp at hcopy
    | some h =>
      obtain ⟨page, -, hcopy, -⟩ := he.sound.exists_copy hh
      simp only [ends_bind, ends_modify]
      have hwrite := ends_writeIfDue_moves isDirty_due he hh
      apply (hwrite.and (ends_writeBackIfDirty he hh hcopy)).mono
      · rintro _ e₁ ⟨hmoves, hclean⟩
        refine ⟨hmoves.tail (.removed fun page' hcopy' => ?_), fun q hq => hgone _ q ((hclean.handles q).trans hq)⟩
        rw [hclean.copies, if_pos rfl] at hcopy'
        exact Option.some.inj hcopy' ▸ rfl
      · rintro _ _ ⟨hfalse, -⟩
        exact hfalse.elim

theorem ends_ensureRoom_moves (he : e.Consistent) :
    Ends ensureRoom e (fun _ e' => Moves e e' ∧ ∀ q, e.cache.handle? q = none → e'.cache.handle? q = none)
      fun cause e' => cause = .bufferPoolFull ∧ e' = e ∧ e.cache.isFull = true ∧ e.cache.victim? = none := by
  unfold ensureRoom
  rw [ends_bind, ends_get]
  split
  · next hfull =>
    exact (ends_evict_moves he).mono (fun _ _ h => h) fun _ _ h => ⟨h.1, h.2.1, hfull, h.2.2⟩
  · exact ⟨.refl, fun _ hq => hq⟩

/-- What a fetch gives is the cached copy of the page. It fails if the cache is full and has no victim, or if
the file does not give the page. -/
theorem ends_fetch_moves (he : e.Consistent) (p : PageId) :
    Ends (fetch p) e (fun h e' => Moves e e' ∧ e'.cache.handle? p = some h)
      fun cause e' =>
        cause = .bufferPoolFull ∧ e' = e ∧ e.cache.isFull = true ∧ e.cache.victim? = none ∨
          Moves e e' ∧ e.cache.handle? p = none ∧ e.stored p = .error cause := by
  unfold fetch
  rw [ends_bind, ends_get]
  cases hh : e.cache.handle? p with
  | some h =>
    unfold modifyCache
    dsimp only
    rw [ends_bind, ends_modify, ends_pure]
    exact ⟨.single (.touched (by rw [hh]; rfl)), hh⟩
  | none =>
    dsimp only
    rw [ends_bind]
    refine (ends_ensureRoom_moves he).mono (fun _ e₁ h₁ => ?_) fun _ _ hfull => Or.inl hfull
    obtain ⟨hmoves, hmissing⟩ := h₁
    have hkeeps := hmoves.keeps he
    have he₁ := hkeeps.consistent
    have hmissing₁ := hmissing p hh
    rw [ends_bind]
    cases ht : e₁.catalog.byId[p.table]? with
    | none =>
      rw [ends_tableFile_of_none ht]
      refine Or.inr ⟨hmoves, rfl, hkeeps.stored_error hh hmissing₁ (he₁.stored_of_none ?_)⟩
      rw [Engine.file?, ht, Option.bind_none]
    | some entry =>
      obtain ⟨f, hf, -⟩ := he₁.opened _ _ ht
      have hfile : e₁.file? p.table = some f := (file?_of_entry ht).trans hf
      rw [ends_tableFile ht, ends_bind, ends_onFiles]
      apply (FileOp.ends_readPage hf p).mono
      · rintro page s ⟨hload, hs⟩
        have hcount := he₁.keeps_store hs
        have hread : ({ e₁ with store := s } : Engine).stored p = .ok page := by
          obtain ⟨-, -, hstored⟩ := he₁.of_alike hcount.catalog hs
          rw [hstored, he₁.stored_eq hfile, hload]
        have hcounted : Moves e { e₁ with store := s } := hmoves.tail (.counted hs)
        simp only [ends_bind, ends_get, ends_modify, ends_pure]
        exact ⟨hcounted.tail (.loaded hread hmissing₁),
          (hcount.consistent.keeps_load hread hmissing₁).2⟩
      · rintro cause s ⟨hload, hs⟩
        refine Or.inr ⟨hmoves.tail (.counted hs), rfl, hkeeps.stored_error hh hmissing₁ ?_⟩
        rw [he₁.stored_eq hfile, hload]

/-! ### Flushing -/

theorem ends_flushList_moves {due : HeapPage → Bool} (hdue : ∀ page, due page = true → page.dirtiedBy ≠ none)
    (handles : List Handle) (he : e.Consistent) (hcached : ∀ h ∈ handles, e.cache.handle? h.page = some h) :
    Ends (handles.forM fun h => do if due (← Op.page h) then writeBack h) e (fun _ e' => Moves e e')
      fun _ _ => False := by
  induction handles generalizing e with
  | nil => exact .refl
  | cons h rest ih =>
    rw [List.forM_eq_forM, List.forM_cons, ends_bind]
    have hfirst := hcached h List.mem_cons_self
    apply ((ends_writeIfDue_moves hdue he hfirst).and (ends_flushOne due hdue he hfirst)).mono
    · rintro _ e₁ ⟨hmoves, hflushed⟩
      have hrest : ∀ h' ∈ rest, e₁.cache.handle? h'.page = some h' := fun h' hmem =>
        (hflushed.cached _).trans (hcached h' (List.mem_cons_of_mem _ hmem))
      exact (ih hflushed.consistent hrest).mono_ok fun _ e' h' => hmoves.trans h'
    · rintro _ _ ⟨hfalse, -⟩
      exact hfalse.elim

theorem ends_flushWhere_moves (he : e.Consistent) {due : HeapPage → Bool}
    (hdue : ∀ page, due page = true → page.dirtiedBy ≠ none) :
    Ends (flushWhere due) e (fun _ e' => Moves e e') fun _ _ => False := by
  unfold flushWhere
  rw [ends_bind, ends_get]
  exact ends_flushList_moves hdue _ he fun h hmem => mem_handles.1 hmem

end Op

end HeapStore
