import HeapStore.Proofs.Engine.Ready

/-!
# Two engines side by side

Engines are `Twins` if both are ready, they agree, and their locks are the same. What they have cached may
differ, and so may which of it is written already. An operation that runs on both comes to the same:
`Op.Together` says that both runs succeed, with related answers, or both fail for the same cause, which is
not the want of room, and that they leave twins behind.

It has a rule for each way to build an operation, and there is a lemma for each operation on pages. Whatever
gets a page first goes on with copies that look alike (`Op.together_getPage_bind`).
-/

namespace HeapStore

namespace Engine

structure Twins (e e' : Engine) : Prop where
  left : e.Ready
  right : e'.Ready
  agrees : Agrees e e'
  locks : e'.locks = e.locks

/-- On both sides the object is the cached copy of the page, and the copies look alike. -/
def Shared (p : PageId) (h h' : Handle) (e e' : Engine) : Prop := ∃ v, Shows e p h v ∧ Shows e' p h' v

/-- On both sides the object is the cached copy of the page, and these are the copies, which look alike. -/
structure Copies (p : PageId) (h h' : Handle) (page page' : HeapPage) (e e' : Engine) : Prop where
  handle : e.cache.handle? p = some h
  handle' : e'.cache.handle? p = some h'
  copy : e.cache.copy? p = some page
  copy' : e'.cache.copy? p = some page'
  view : page.view = page'.view

/-- The page is cached on both sides. -/
def CachedBoth (p : PageId) (e e' : Engine) : Prop :=
  (e.cache.handle? p).isSome = true ∧ (e'.cache.handle? p).isSome = true

variable {e e' s s' : Engine}

theorem Twins.calm (h : Twins e e') (hl : Calm e s) (hr : Calm e' s') (hlocks : s'.locks = s.locks) :
    Twins s s' :=
  ⟨hl.ready, hr.ready, hl.agrees.symm.trans (h.agrees.trans hr.agrees), hlocks⟩

/-- The same change of the locks. -/
theorem Twins.withLocks (h : Twins e e') (f : LockTable → LockTable) :
    Twins { e with locks := f e.locks } { e' with locks := f e'.locks } :=
  h.calm (h.left.calm_locks _) (h.right.calm_locks _) (congrArg f h.locks)

theorem Twins.exists_file (h : Twins e e') {fd : Descriptor} {f : HeapFile} (hf : e.store.file? fd = some f) :
    ∃ f', e'.store.file? fd = some f' ∧ f'.uncounted = f.uncounted := by
  have hfiles := h.agrees.files fd
  rw [hf, Option.map_some] at hfiles
  exact Option.map_eq_some_iff.1 hfiles

/-- The same append. -/
theorem Twins.appended (h : Twins e e') {t : TableId} {entry : TableEntry} {f f' : HeapFile}
    (ht : e.catalog.byId[t]? = some entry) (hf : e.store.file? entry.file = some f)
    (hf' : e'.store.file? entry.file = some f') :
    Twins (e.appended entry.file f) (e'.appended entry.file f') :=
  ⟨h.left.appended ht hf, h.right.appended (h.agrees.catalog ▸ ht) hf',
    h.agrees.appended h.left.toConsistent h.right.toConsistent ht hf hf', h.locks⟩

/-- The same access. -/
theorem Twins.touch (h : Twins e e') {p : PageId} (hp : CachedBoth p e e') :
    Twins { e with cache := e.cache.touch p } { e' with cache := e'.cache.touch p } :=
  h.calm (Moves.calm (.single (.touched hp.1)) h.left) (Moves.calm (.single (.touched hp.2)) h.right) h.locks

variable {p : PageId} {h h' : Handle} {page page' new new' : HeapPage}

/-- The same change of a page that both sides have cached. -/
theorem Twins.setPage (htwins : Twins e e') (hcopies : Copies p h h' page page' e e') (hwf : new.WellFormed)
    (hwf' : new'.WellFormed) (hid : new.id = page.id) (hschema : new.schema = page.schema)
    (hnew : new.view = new'.view) (txn : TxnId) :
    Twins { e with cache := e.cache.setPage h (new.markDirty txn) }
      { e' with cache := e'.cache.setPage h' (new'.markDirty txn) } := by
  obtain ⟨hh, hh', hcopy, hcopy', hold⟩ := hcopies
  obtain ⟨-, hschemas, -⟩ := HeapPage.view_eq_iff.1 hold
  obtain ⟨hids, hschemas', -⟩ := HeapPage.view_eq_iff.1 hnew
  have hp : new.id = p := hid.trans (htwins.left.sound.id_of_copy hcopy)
  have hleft := htwins.left.setPage hh hcopy (hwf.markDirty txn) hp hschema (by simp [HeapPage.markDirty])
  have hright := htwins.right.setPage hh' hcopy' (hwf'.markDirty txn) (hids.symm.trans hp)
    (hschemas'.symm.trans (hschema.trans hschemas)) (by simp [HeapPage.markDirty])
  refine ⟨hleft, hright, ?_, htwins.locks⟩
  have hmarked : (new.markDirty txn).view = (new'.markDirty txn).view := by
    rw [HeapPage.view_markDirty, HeapPage.view_markDirty, hnew]
  exact htwins.agrees.of_changed (Cache.changed?_setPage htwins.left.sound hh (by simp [HeapPage.markDirty]))
    (Cache.changed?_setPage htwins.right.sound hh' (by simp [HeapPage.markDirty]))
    (HeapPage.block_congr (hwf.markDirty txn) (hwf'.markDirty txn) hmarked)

theorem shows_setPage (hc : e.cache.Sound) (hh : e.cache.handle? p = some h) (page : HeapPage) :
    Shows { e with cache := e.cache.setPage h page } p h page.view := by
  have hcopy := hc.copy?_setPage hh page p
  rw [if_pos rfl] at hcopy
  exact ⟨hh, page, hc.page?_setPage hh page, hcopy, rfl⟩

theorem Twins.shared_setPage (htwins : Twins e e') (hcopies : Copies p h h' page page' e e')
    (hnew : new.view = new'.view) :
    Shared p h h' { e with cache := e.cache.setPage h new } { e' with cache := e'.cache.setPage h' new' } :=
  ⟨new.view, shows_setPage htwins.left.sound hcopies.handle new,
    hnew ▸ shows_setPage htwins.right.sound hcopies.handle' new'⟩

theorem Shared.exists_copies (hs : Shared p h h' e e') : ∃ page page', Copies p h h' page page' e e' := by
  obtain ⟨v, ⟨hh, page, -, hcopy, hv⟩, hh', page', -, hcopy', hv'⟩ := hs
  exact ⟨page, page', hh, hh', hcopy, hcopy', hv.trans hv'.symm⟩

theorem Shared.touch (hs : Shared p h h' e e') (q : PageId) :
    Shared p h h' { e with cache := e.cache.touch q } { e' with cache := e'.cache.touch q } := by
  obtain ⟨v, ⟨hh, hpage⟩, hh', hpage'⟩ := hs
  exact ⟨v, ⟨hh, hpage⟩, hh', hpage'⟩

theorem Shared.cachedBoth (hs : Shared p h h' e e') : CachedBoth p e e' := by
  obtain ⟨v, ⟨hh, -⟩, hh', -⟩ := hs
  exact ⟨by rw [hh]; rfl, by rw [hh']; rfl⟩

end Engine

/-! ### Runs -/

/-- What the two runs of an operation come to. -/
def Both {α : Type} (op op' : StateM Engine α) (e e' : Engine) (post : α → α → Engine → Engine → Prop) : Prop :=
  post (op.run e).1 (op'.run e').1 (op.run e).2 (op'.run e').2

/-- Two answers, or twice the same cause of failure, which is not the want of room. -/
def Outcomes {α : Type} (ok : α → α → Engine → Engine → Prop) :
    Except StorageError α → Except StorageError α → Engine → Engine → Prop
  | .ok a, .ok a', s, s' => ok a a' s s'
  | .error cause, .error cause', s, s' => cause' = cause ∧ cause ≠ .bufferPoolFull ∧ Engine.Twins s s'
  | _, _, _, _ => False

section

variable {α β : Type} {op op' : StateM Engine α} {e e' s s' : Engine} {post post' : α → α → Engine → Engine → Prop}

theorem both_bind {f f' : α → StateM Engine β} {post : β → β → Engine → Engine → Prop} :
    Both (op >>= f) (op' >>= f') e e' post ↔ Both op op' e e' fun a a' s s' => Both (f a) (f' a') s s' post :=
  Iff.rfl

@[simp] theorem both_get_bind {f f' : Engine → StateM Engine α} :
    Both (get >>= f) (get >>= f') e e' post ↔ Both (f e) (f' e') e e' post := Iff.rfl

theorem Both.mono (h : Both op op' e e' post) (hpost : ∀ a a' s s', post a a' s s' → post' a a' s s') :
    Both op op' e e' post' := hpost _ _ _ _ h

theorem outcomes_iff {ok : α → α → Engine → Engine → Prop} {x x' : Except StorageError α} :
    Outcomes ok x x' s s' ↔ (∃ a a', x = .ok a ∧ x' = .ok a' ∧ ok a a' s s') ∨
      ∃ cause, x = .error cause ∧ x' = .error cause ∧ cause ≠ .bufferPoolFull ∧ Engine.Twins s s' := by
  cases x <;> cases x' <;> simp [Outcomes]

end

namespace Op

open Engine

variable {α β : Type} {op op' : Op α} {e e' s s' : Engine} {ok mid : α → α → Engine → Engine → Prop}

/-- Both runs succeed, or both fail. -/
def Together (op op' : Op α) (e e' : Engine) (ok : α → α → Engine → Engine → Prop) : Prop :=
  Both op.run op'.run e e' (Outcomes ok)

@[simp] theorem together_pure {a a' : α} : Together (pure a) (pure a') e e' ok ↔ ok a a' e e' := Iff.rfl

@[simp] theorem together_get_bind {f f' : Engine → Op α} :
    Together (get >>= f) (get >>= f') e e' ok ↔ Together (f e) (f' e') e e' ok := Iff.rfl

@[simp] theorem together_modify_bind {m m' : Engine → Engine} {f f' : PUnit → Op α} :
    Together (modify m >>= f) (modify m' >>= f') e e' ok ↔ Together (f ⟨⟩) (f' ⟨⟩) (m e) (m' e') ok := Iff.rfl

theorem Together.ends (h : Together op op' e e' ok) :
    (∃ a a' s s', op.run.run e = (.ok a, s) ∧ op'.run.run e' = (.ok a', s') ∧ ok a a' s s') ∨
      ∃ cause s s', op.run.run e = (.error cause, s) ∧ op'.run.run e' = (.error cause, s') ∧
        cause ≠ .bufferPoolFull ∧ Twins s s' := by
  unfold Together Both at h
  cases hrun : op.run.run e with | mk result s =>
  cases hrun' : op'.run.run e' with | mk result' s' =>
  rw [hrun, hrun'] at h
  cases result with
  | ok a => cases result' with
    | ok a' => exact Or.inl ⟨a, a', s, s', rfl, rfl, h⟩
    | error cause' => exact h.elim
  | error cause => cases result' with
    | ok a' => exact h.elim
    | error cause' =>
      obtain ⟨rfl, hroom, htwins⟩ := h
      exact Or.inr ⟨cause', s, s', rfl, rfl, hroom, htwins⟩

theorem Together.bind {f f' : α → Op β} {ok : β → β → Engine → Engine → Prop} (h : Together op op' e e' mid)
    (hf : ∀ a a' s s', mid a a' s s' → Together (f a) (f' a') s s' ok) :
    Together (op >>= f) (op' >>= f') e e' ok := by
  unfold Together Both
  simp only [ExceptT.run_bind, StateT.run_bind]
  obtain ⟨a, a', s, s', hrun, hrun', hmid⟩ | ⟨cause, s, s', hrun, hrun', hroom, htwins⟩ := h.ends
  · rw [hrun, hrun']
    exact hf a a' s s' hmid
  · rw [hrun, hrun']
    exact ⟨rfl, hroom, htwins⟩

theorem Together.tryCatch {handler handler' : StorageError → Op α} (h : Together op op' e e' ok)
    (hhandler : ∀ cause s s', cause ≠ .bufferPoolFull → Twins s s' →
      Together (handler cause) (handler' cause) s s' ok) :
    Together (tryCatch op handler) (tryCatch op' handler') e e' ok := by
  unfold Together Both
  simp only [MonadExcept.tryCatch, tryCatchThe, MonadExceptOf.tryCatch, ExceptT.tryCatch, ExceptT.run_mk,
    StateT.run_bind]
  have hop : StateT.run op e = op.run.run e := rfl
  have hop' : StateT.run op' e' = op'.run.run e' := rfl
  rw [hop, hop']
  obtain ⟨a, a', s, s', hrun, hrun', hok⟩ | ⟨cause, s, s', hrun, hrun', hroom, htwins⟩ := h.ends
  · rw [hrun, hrun']
    exact hok
  · rw [hrun, hrun']
    exact hhandler cause s s' hroom htwins

/-- What is known of the first run alone. -/
theorem Together.and_left (h : Together op op' e e' mid) {ok₁ : α → Engine → Prop}
    {err₁ : StorageError → Engine → Prop} (hl : Ends op e ok₁ err₁) :
    Together op op' e e' fun a a' s s' => mid a a' s s' ∧ ok₁ a s := by
  unfold Together Both
  unfold Ends at hl
  obtain ⟨a, a', s, s', hrun, hrun', hmid⟩ | ⟨cause, s, s', hrun, hrun', hroom, htwins⟩ := h.ends
  · rw [hrun] at hl
    rw [hrun, hrun']
    exact ⟨hmid, hl⟩
  · rw [hrun, hrun']
    exact ⟨rfl, hroom, htwins⟩

/-- How each run ends is known, and the ends match. -/
theorem Together.of_ends {ok₁ ok₂ : α → Engine → Prop} {err₁ err₂ : StorageError → Engine → Prop}
    (h : Ends op e ok₁ err₁) (h' : Ends op' e' ok₂ err₂)
    (hok : ∀ a a' s s', ok₁ a s → ok₂ a' s' → ok a a' s s')
    (herr : ∀ cause cause' s s', err₁ cause s → err₂ cause' s' →
      cause' = cause ∧ cause ≠ .bufferPoolFull ∧ Twins s s')
    (hleft : ∀ a cause s s', ok₁ a s → ¬ err₂ cause s') (hright : ∀ a cause s s', err₁ cause s → ¬ ok₂ a s') :
    Together op op' e e' ok := by
  unfold Ends at h h'
  unfold Together Both
  cases hrun : op.run.run e with | mk result s =>
  cases hrun' : op'.run.run e' with | mk result' s' =>
  rw [hrun] at h
  rw [hrun'] at h'
  cases result with
  | ok a => cases result' with
    | ok a' => exact hok _ _ _ _ h h'
    | error cause' => exact (hleft _ _ _ _ h h').elim
  | error cause => cases result' with
    | ok a' => exact (hright _ _ _ _ h h').elim
    | error cause' => exact herr _ _ _ _ h h'

/-- Neither run can fail. -/
theorem Together.of_ends_ok {ok₁ ok₂ : α → Engine → Prop} (h : Ends op e ok₁ fun _ _ => False)
    (h' : Ends op' e' ok₂ fun _ _ => False) (hok : ∀ a a' s s', ok₁ a s → ok₂ a' s' → ok a a' s s') :
    Together op op' e e' ok :=
  .of_ends h h' hok (fun _ _ _ _ hfalse _ => hfalse.elim) (fun _ _ _ _ _ hfalse => hfalse)
    fun _ _ _ _ hfalse _ => hfalse.elim

/-! ### Pages -/

variable {p : PageId} {h h' : Handle}

theorem together_page_bind {page page' : HeapPage} (hpage : e.cache.page? h = some page)
    (hpage' : e'.cache.page? h' = some page') {f f' : HeapPage → Op α} :
    Together (Op.page h >>= f) (Op.page h' >>= f') e e' ok ↔ Together (f page) (f' page') e e' ok := by
  unfold Op.page
  rw [bind_assoc, bind_assoc, together_get_bind, hpage, hpage', pure_bind, pure_bind]

theorem together_fetch (h : Twins e e') (p : PageId) :
    Together (fetch p) (fetch p) e e' fun h h' s s' => Twins s s' ∧ Shared p h h' s s' := by
  refine .of_ends (ends_fetch_ready h.left p) (ends_fetch_ready h.right p) ?_ ?_ ?_ ?_
  · rintro h₁ h₂ s s' ⟨hl, hlocks, page, hpage, hs⟩ ⟨hr, hlocks', page', hpage', hs'⟩
    obtain rfl : page' = page := Except.ok.inj (hpage'.symm.trans ((h.agrees.latest_eq p).trans hpage))
    exact ⟨h.calm hl hr (hlocks'.trans (h.locks.trans hlocks.symm)), _, hs, hs'⟩
  · rintro cause cause' s s' ⟨hl, hlocks, hcause⟩ ⟨hr, hlocks', hcause'⟩
    have hsame : cause' = cause := Except.error.inj (hcause'.symm.trans ((h.agrees.latest_eq p).trans hcause))
    exact ⟨hsame, fun hfull => latest_ne_full e p (hfull ▸ hcause),
      h.calm hl hr (hlocks'.trans (h.locks.trans hlocks.symm))⟩
  · rintro h₁ cause s s' ⟨-, -, page, hpage, -⟩ ⟨-, -, hcause⟩
    exact absurd (hcause.symm.trans ((h.agrees.latest_eq p).trans hpage)) (by simp)
  · rintro h₁ cause s s' ⟨-, -, hcause⟩ ⟨-, -, page, hpage, -⟩
    exact absurd (hpage.symm.trans ((h.agrees.latest_eq p).trans hcause)) (by simp)

theorem together_getPage (h : Twins e e') (txn : TxnId) (p : PageId) (access : Access) :
    Together (getPage txn p access) (getPage txn p access) e e'
      fun h h' s s' => Twins s s' ∧ Shared p h h' s s' := by
  have hlocked := h.withLocks fun locks => (locks.acquireAlone p txn access.lockMode).2
  unfold getPage holdsLock lock
  simp only [bind_assoc, pure_bind, together_get_bind, together_modify_bind, h.locks] at hlocked ⊢
  split
  · refine (together_fetch hlocked p).tryCatch fun cause s s' hroom htwins => ?_
    unfold releasePage
    split
    · exact ⟨rfl, hroom, htwins⟩
    · exact ⟨rfl, hroom, htwins.withLocks fun locks => (locks.release p txn).2⟩
  · exact ⟨rfl, by simp, hlocked⟩

/-- Once a page is there on both sides, both operations go on with their copies of it. -/
theorem together_getPage_bind (htwins : Twins e e') (txn : TxnId) (p : PageId) (access : Access)
    {f f' : Handle → HeapPage → Op α}
    (hf : ∀ h h' page page' s s', Twins s s' → Copies p h h' page page' s s' →
      Together (f h page) (f' h' page') s s' ok) :
    Together (do let h ← getPage txn p access; f h (← Op.page h))
      (do let h ← getPage txn p access; f' h (← Op.page h)) e e' ok := by
  refine (together_getPage htwins txn p access).bind ?_
  rintro h h' s s' ⟨htwins, hs⟩
  obtain ⟨page, page', hcopies⟩ := hs.exists_copies
  have hpage : s.cache.page? h = some page := (Cache.copy?_eq_of_handle? hcopies.handle).symm.trans hcopies.copy
  have hpage' : s'.cache.page? h' = some page' :=
    (Cache.copy?_eq_of_handle? hcopies.handle').symm.trans hcopies.copy'
  rw [together_page_bind hpage hpage']
  exact hf h h' page page' s s' htwins hcopies

theorem together_flushWhere (h : Twins e e') {due : HeapPage → Bool}
    (hdue : ∀ page, due page = true → page.dirtiedBy ≠ none) :
    Together (flushWhere due) (flushWhere due) e e' fun _ _ s s' => Twins s s' := by
  refine .of_ends_ok (ends_flushWhere_ready h.left hdue) (ends_flushWhere_ready h.right hdue) ?_
  rintro _ _ s s' ⟨hl, hlocks, -⟩ ⟨hr, hlocks', -⟩
  exact h.calm hl hr (hlocks'.trans (h.locks.trans hlocks.symm))

theorem together_flushTxn (h : Twins e e') (txn : TxnId) :
    Together (flushTxn txn) (flushTxn txn) e e' fun _ _ s s' => Twins s s' :=
  together_flushWhere h fun page hpage => by
    rw [of_decide_eq_true hpage]
    simp

theorem together_flushAll (h : Twins e e') :
    Together flushAll flushAll e e' fun _ _ s s' => Twins s s' := together_flushWhere h isDirty_due

theorem together_commit (h : Twins e e') (txn : TxnId) :
    Together (commit txn) (commit txn) e e' fun _ _ s s' => Twins s s' := by
  unfold commit releaseAll
  have hfailed : ∀ cause s s', cause ≠ .bufferPoolFull → Twins s s' →
      Together (do modify fun e : Engine => { e with locks := e.locks.releaseAll txn }; throw cause)
        (do modify fun e : Engine => { e with locks := e.locks.releaseAll txn }; throw cause) s s'
        fun (_ _ : PUnit) s s' => Twins s s' := fun cause s s' hroom htwins =>
    ⟨rfl, hroom, htwins.withLocks (·.releaseAll txn)⟩
  exact ((together_flushTxn h txn).tryCatch hfailed).bind fun _ _ s s' htwins =>
    htwins.withLocks (·.releaseAll txn)

end Op

end HeapStore
