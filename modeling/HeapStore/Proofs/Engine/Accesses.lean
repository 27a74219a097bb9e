import HeapStore.Proofs.Engine.Calls
import HeapStore.Proofs.Engine.Steps

/-!
# Which pages a call accesses

All that calls are made of comes to a series of steps of the pool, of which it can be said what pages they access and in
which order: a page that is asked for is accessed once, a delete accesses the page of its record id, an insert looks at
one page after the other and accesses the one that takes the tuple twice more, a scan accesses the pages from its
position on, and flushes access none. It can also be said what work the steps do (`Engine.Work`): only inserts and
deletes change a page, only inserts append one, and only flushes write pages otherwise than to make room. The pages that
a flush is to write are written on the way (`Engine.Saves`).

A page that is not cached cannot be had if all places are taken by pages that somebody holds (`Cache.NoPlace`); if the
lock is granted, this is the only reason to say that the pool is full (`Op.getPage_full_iff`).
-/

namespace HeapStore

/-- There is no place for a page: it is not cached, and each place is taken by a page that somebody holds. -/
structure Cache.NoPlace (c : Cache) (p : PageId) : Prop where
  missing : c.handle? p = none
  full : c.size = c.capacity
  held : ∀ q h, c.handle? q = some h → 0 < c.holders h.object

theorem Cache.Bounded.noPlace_iff {c : Cache} (hc : c.Bounded) {p : PageId} (hmissing : c.handle? p = none)
    (hfull : c.isFull = true) : c.NoPlace p ↔ c.victim? = none :=
  ⟨fun h => hc.victim?_eq_none_iff.2 h.held,
    fun h => ⟨hmissing, hc.size_eq_of_full hfull, hc.victim?_eq_none_iff.1 h⟩⟩

namespace HeapPage

variable {page page' : HeapPage} {t stored : Tuple}

theorem insert_ne_pageFull (hroom : 0 < page.numFree) (q : PageId) : page.insert t ≠ .error (.pageFull q) := by
  intro h
  unfold insert at h
  split at h
  · simp at h
  · split at h
    · next hnone =>
      have hall : ∀ used ∈ page.occupancy, (!used) = false := by
        simpa [firstFree?] using hnone
      have hmem : false ∈ page.occupancy := List.count_pos_iff.1 hroom
      simpa using hall false hmem
    · simp at h

end HeapPage

namespace Engine

variable {e e' e'' : Engine} {p : PageId} {h h' : Handle} {page page' : HeapPage} {may may' : Work → Prop}
  {log : List PageId} {wanted : Option PageId}

/-- Some pages of a table from the `n`-th on, the last one first. -/
def visited (t : TableId) (n pages : Nat) : List PageId := ((List.range' n pages).map fun i => ⟨t, i⟩).reverse

theorem visited_succ (t : TableId) (n pages : Nat) :
    visited t n (pages + 1) = visited t (n + 1) pages ++ [⟨t, n⟩] := by
  rw [visited, List.range'_succ, List.map_cons, List.reverse_cons]
  rfl

@[simp] theorem visited_zero (t : TableId) (n : Nat) : visited t n 0 = [] := rfl

/-- Pages that are due may be written, and no other work is done. -/
def Flushing (due : HeapPage → Prop) : Work → Prop
  | .write page => due page
  | .change _ | .append _ => False

theorem Flushing.mono {due due' : HeapPage → Prop} (h : ∀ page, due page → due' page) :
    ∀ w, Flushing due w → Flushing due' w
  | .write page, hdue => h page hdue

/-- The page of an object, which counted as changed, was written to its file and counts as unchanged. -/
structure Written (h : Handle) (page : HeapPage) (e e' : Engine) : Prop where
  cached : e.cache.handle? h.page = some h
  object : e.cache.page? h = some page
  dirty : page.isDirty = true
  rest : ∃ store, e.Puts page store ∧ e' = { e with store, cache := e.cache.setPage h page.markClean }

theorem Written.step (hwritten : Written h page e e') : PoolStep e (.work (.write page)) e' := by
  obtain ⟨hcached, hobject, hdirty, store, hputs, rfl⟩ := hwritten
  exact .written hcached hobject hdirty hputs

/-- The page of an object is written to its file on the way, and no page is accessed. -/
def Saves (may : Work → Prop) (h : Handle) (page : HeapPage) (e e' : Engine) : Prop :=
  ∃ e₁ e₂, PoolSteps may e [] none e₁ ∧ Written h page e₁ e₂ ∧ PoolSteps may e₂ [] none e'

theorem Written.steps (hwritten : Written h page e e') (hmay : may (.write page)) : PoolSteps may e [] none e' :=
  PoolSteps.refl.work hwritten.step hmay

theorem Written.bounded (hwritten : Written h page e e') (hb : e.cache.Bounded) : e'.cache.Bounded :=
  hwritten.step.bounded hb

theorem Written.handle? (hwritten : Written h page e e') (q : PageId) : e'.cache.handle? q = e.cache.handle? q := by
  obtain ⟨-, -, -, store, -, rfl⟩ := hwritten
  rfl

theorem Written.page?_of_ne (hwritten : Written h page e e') (hb : e.cache.Bounded)
    (hh' : e.cache.handle? h'.page = some h') (hne : h' ≠ h) : e'.cache.page? h' = e.cache.page? h' := by
  obtain ⟨hcached, -, -, store, -, rfl⟩ := hwritten
  have hpage : h'.page ≠ h.page := fun heq => hne (Option.some.inj (by rw [← hh', heq, hcached]))
  rw [← Cache.copy?_eq_of_handle? hh', ← Cache.copy?_eq_of_handle? (c := e.cache.setPage h page.markClean) hh',
    hb.copy?_setPage hcached, if_neg hpage]

theorem Saves.of_written (hwritten : Written h page e e') (hsteps : PoolSteps may e' [] none e'') :
    Saves may h page e e'' := ⟨e, e', .refl, hwritten, hsteps⟩

theorem Saves.after (hsteps : PoolSteps may e [] none e') (hsaves : Saves may h page e' e'') :
    Saves may h page e e'' := by
  obtain ⟨e₁, e₂, hbefore, hwritten, hafter⟩ := hsaves
  exact ⟨e₁, e₂, hsteps.trans hbefore, hwritten, hafter⟩

theorem Saves.mono (hsaves : Saves may h page e e') (hmay : ∀ w, may w → may' w) : Saves may' h page e e' := by
  obtain ⟨e₁, e₂, hbefore, hwritten, hafter⟩ := hsaves
  exact ⟨e₁, e₂, hbefore.mono hmay, hwritten, hafter.mono hmay⟩

theorem Saves.other (hsaves : Saves may h page e e') (hstep : PoolStep e' .other e'') : Saves may h page e e'' := by
  obtain ⟨e₁, e₂, hbefore, hwritten, hafter⟩ := hsaves
  exact ⟨e₁, e₂, hbefore, hwritten, hafter.other hstep⟩

theorem PoolStep.locks (e : Engine) (locks : LockTable) : PoolStep e .other { e with locks } :=
  .other rfl (.refl _) rfl

/-- Something may happen before, but not to tables, files and cache. -/
theorem PoolSteps.after_other (hsteps : PoolSteps may e' log wanted e'') (hstep : PoolStep e .other e') :
    PoolSteps may e log wanted e'' := by
  have hbefore : PoolSteps may e [] none e' := PoolSteps.refl.other hstep
  simpa using hbefore.trans hsteps

theorem PoolSteps.changes (hsteps : PoolSteps may e log wanted e') (hb : e.cache.Bounded)
    (hh : e'.cache.handle? p = some h) (hpage : e'.cache.page? h = some page) (hid : page'.id = page.id)
    (hmay : may (.change h)) : PoolSteps may e log wanted { e' with cache := e'.cache.setPage h page' } := by
  obtain ⟨page₀, hpage₀, -, hid₀⟩ := (hsteps.bounded hb).toSound.exists_copy hh
  obtain rfl := Option.some.inj (hpage.symm.trans hpage₀)
  have hold : page.id = h.page := hid₀.trans (Cache.handle?_eq_some_iff.1 hh).2.symm
  exact hsteps.work (.changed hpage hold (hid.trans hold)) hmay

end Engine

namespace Op

open Engine

variable {e e' : Engine} {txn : TxnId} {p q : PageId} {h : Handle} {log : List PageId}

/-! ### Writing back -/

theorem ends_writeBackIfDirty_written (hb : e.cache.Bounded) (hh : e.cache.handle? h.page = some h) :
    Ends (writeBackIfDirty h) e
      (fun _ e' => ∃ page, e.cache.page? h = some page ∧ (if page.isDirty then Written h page e e' else e' = e))
      fun cause e' => cause.isPageFault = true ∧ e' = e := by
  obtain ⟨page, hpage, -⟩ := hb.toSound.exists_copy hh
  unfold writeBackIfDirty
  rw [ends_bind, ends_page hpage]
  split
  · next hdirty =>
    refine (ends_writeBack_any h e).mono ?_ fun _ _ hfault => hfault
    rintro - e' ⟨page', store, hpage', hputs, hafter⟩
    obtain rfl := Option.some.inj (hpage.symm.trans hpage')
    exact ⟨page, hpage, by rw [if_pos hdirty]; exact ⟨hh, hpage, hdirty, store, hputs, hafter⟩⟩
  · next hclean => exact ⟨page, hpage, by rw [if_neg hclean]⟩

/-! ### Making room -/

/-- An eviction makes room; it fails for want of a victim or if the victim cannot be written, and then nothing
happened. -/
theorem ends_evict_step (hb : e.cache.Bounded) (hmissing : e.cache.handle? q = none) (hfull : e.cache.isFull = true) :
    Ends evict e
      (fun _ e' => PoolStep e (.room q) e' ∧ e'.cache.handle? q = none ∧ e'.cache.isFull = false ∧ ¬ e.cache.NoPlace q)
      fun cause e' => e' = e ∧ (cause = .bufferPoolFull ∧ e.cache.NoPlace q ∨
        cause.isPageFault = true ∧ ¬ e.cache.NoPlace q) := by
  unfold evict modifyCache
  rw [ends_bind, ends_get]
  cases hvictim : e.cache.victim? with
  | none => exact ⟨rfl, Or.inl ⟨rfl, (hb.noPlace_iff hmissing hfull).2 hvictim⟩⟩
  | some p =>
    have hplace : ¬ e.cache.NoPlace q := fun hno => by
      rw [(hb.noPlace_iff hmissing hfull).1 hno] at hvictim
      simp at hvictim
    obtain ⟨h, hh, -⟩ := hb.victim?_eq_some hvictim
    have hp : h.page = p := (Cache.handle?_eq_some_iff.1 hh).2
    subst hp
    dsimp only
    simp only [ends_bind, ends_get, hh, ends_modify]
    refine (ends_writeBackIfDirty_written hb hh).mono ?_ fun _ _ hfault => ⟨hfault.2, Or.inr ⟨hfault.1, hplace⟩⟩
    rintro - e₁ ⟨page, hpage, hwritten⟩
    have hstill : (e.cache.giveUp h page).handle? q = none := by
      rw [Cache.handle?_giveUp, hmissing, ite_self]
    have hafter : ∃ store, (if page.isDirty then e.Puts page store else store = e.store) ∧
        e₁ = { e with store, cache := if page.isDirty then e.cache.setPage h page.markClean else e.cache } := by
      split at hwritten
      · next hdirty =>
        obtain ⟨-, -, -, store, hputs, rfl⟩ := hwritten
        exact ⟨store, by rwa [if_pos hdirty], by rw [if_pos hdirty]⟩
      · next hclean => exact ⟨e.store, by rw [if_neg hclean], by rw [if_neg hclean, hwritten]⟩
    obtain ⟨store, hstore, rfl⟩ := hafter
    exact ⟨.evicted hmissing hfull hvictim hh hpage hstore, hstill, hb.isFull_giveUp hh page, hplace⟩

theorem ends_ensureRoom_steps (hb : e.cache.Bounded) (hmissing : e.cache.handle? q = none) :
    Ends ensureRoom e
      (fun _ e' => (∃ wanted, PoolSteps Idly e [] wanted e' ∧ ∀ p, wanted = some p → p = q) ∧
        e'.cache.handle? q = none ∧ e'.cache.isFull = false ∧ ¬ e.cache.NoPlace q)
      fun cause e' => e' = e ∧ (cause = .bufferPoolFull ∧ e.cache.NoPlace q ∨
        cause.isPageFault = true ∧ ¬ e.cache.NoPlace q) := by
  unfold ensureRoom
  rw [ends_bind, ends_get]
  split
  · next hfull =>
    refine (ends_evict_step hb hmissing hfull).mono ?_ fun _ _ h => h
    rintro - e' ⟨hstep, hrest⟩
    exact ⟨⟨some q, .room .refl hstep, fun p hp => (Option.some.inj hp).symm⟩, hrest⟩
  · next hroom =>
    have hroom' : e.cache.isFull = false := Bool.eq_false_iff.2 hroom
    refine ⟨⟨none, .refl, by simp⟩, hmissing, hroom', fun hno => ?_⟩
    exact Nat.ne_of_lt (Cache.size_lt_of_not_full hroom') hno.full

/-! ### Fetching -/

/-- A fetch accesses the page that it gives. One that fails may have made room. -/
theorem ends_fetch_steps (hb : e.cache.Bounded) (p : PageId) :
    Ends (fetch p) e (fun h e' => PoolSteps Idly e [p] none e' ∧ e'.cache.handle? p = some h ∧ ¬ e.cache.NoPlace p)
      fun cause e' => (∃ wanted, PoolSteps Idly e [] wanted e') ∧
        (cause = .bufferPoolFull ∧ e.cache.NoPlace p ∨ cause.isPageFault = true ∧ ¬ e.cache.NoPlace p) := by
  unfold fetch
  rw [ends_bind, ends_get]
  cases hh : e.cache.handle? p with
  | some h =>
    unfold modifyCache
    dsimp only
    rw [ends_bind, ends_modify, ends_pure]
    refine ⟨.access .refl (.accessed (by rw [hh]; rfl)) (by simp), hh, fun hno => ?_⟩
    rw [hno.missing] at hh
    simp at hh
  | none =>
    dsimp only
    simp only [ends_bind, ends_onFiles, ends_get, ends_modify, ends_pure]
    refine (ends_ensureRoom_steps hb hh).mono ?_ ?_
    · rintro - e₁ ⟨⟨wanted, hsteps, hwanted⟩, hmissing, hroom, hplace⟩
      refine (ends_tableFile_any p.table e₁).mono ?_ fun _ _ h =>
        ⟨⟨wanted, h.2 ▸ hsteps⟩, Or.inr ⟨h.1, hplace⟩⟩
      rintro fd e₂ ⟨hfd, rfl⟩
      refine ((FileOp.ends_readPage_any fd p e₂.store).and (Ends.self _ _)).mono ?_ ?_
      · rintro page s ⟨⟨rfl, -, hs⟩, hread⟩
        have hstored : e₂.stored page.id = .ok page := by
          rw [stored_def, hfd]
          exact congrArg Prod.fst hread
        refine ⟨(hsteps.access (.loaded hmissing hroom hstored) hwanted).other (.other rfl hs rfl), ?_, hplace⟩
        show (e₂.cache.load page).2.handle? page.id = some (e₂.cache.load page).1
        rw [Cache.handle?_load hmissing, if_pos rfl]
      · rintro cause s ⟨⟨hfault, hs⟩, -⟩
        exact ⟨⟨wanted, hsteps.other (.other rfl hs rfl)⟩, Or.inr ⟨hfault, hplace⟩⟩
    · rintro cause e' ⟨rfl, hcause⟩
      exact ⟨⟨none, .refl⟩, hcause⟩

/-! ### Pages that are asked for -/

/-- What is asked for is given and accessed, or nothing is accessed. -/
theorem ends_getPage_steps (hb : e.cache.Bounded) (txn : TxnId) (p : PageId) (access : Access) :
    Ends (getPage txn p access) e (fun h e' => PoolSteps Idly e [p] none e' ∧ e'.cache.handle? p = some h)
      fun _ e' => ∃ wanted, PoolSteps Idly e [] wanted e' := by
  unfold getPage holdsLock
  simp only [ends_bind, ends_get, ends_pure, ends_tryCatch]
  refine (ends_lock e txn p access.lockMode).mono ?_ ?_
  · rintro - - ⟨locks, rfl, -⟩
    refine (ends_fetch_steps (e := { e with locks }) hb p).mono ?_ ?_
    · rintro h e' ⟨hsteps, hh, -⟩
      exact ⟨hsteps.after_other (.locks e locks), hh⟩
    · rintro cause e' ⟨⟨wanted, hsteps⟩, -⟩
      have hall : PoolSteps Idly e [] wanted e' := hsteps.after_other (.locks e locks)
      cases e.locks.holds p txn with
      | true => exact ⟨wanted, hall⟩
      | false => exact ⟨wanted, hall.other (.locks e' _)⟩
  · rintro cause - ⟨-, locks, rfl, -⟩
    exact ⟨none, PoolSteps.refl.other (.locks e locks)⟩

theorem ends_getPage_of_cached (hh : e.cache.handle? p = some h) (txn : TxnId) (access : Access) :
    Ends (getPage txn p access) e
      (fun h' e' => h' = h ∧ ∃ locks, e' = { e with locks, cache := e.cache.touch p })
      fun cause e' => cause = .transactionAborted txn p ∧ ∃ locks, e' = { e with locks } := by
  unfold getPage holdsLock
  simp only [ends_bind, ends_get, ends_pure, ends_tryCatch]
  refine (ends_lock e txn p access.lockMode).mono ?_ ?_
  · rintro - - ⟨locks, rfl, -⟩
    unfold fetch modifyCache
    simp only [ends_bind, ends_get, hh, ends_modify]
    exact ⟨rfl, locks, rfl⟩
  · rintro cause - ⟨hcause, locks, rfl, -⟩
    exact ⟨hcause, locks, rfl⟩

/-! ### Flushes -/

theorem ends_flushOne_written {due : HeapPage → Bool} (hdue : ∀ page, due page = true → page.isDirty = true)
    (hb : e.cache.Bounded) (hh : e.cache.handle? h.page = some h) :
    Ends (do if due (← Op.page h) then writeBack h) e
      (fun _ e' => ∃ page, e.cache.page? h = some page ∧ (if due page then Written h page e e' else e' = e))
      fun _ e' => e' = e := by
  obtain ⟨page, hpage, -⟩ := hb.toSound.exists_copy hh
  rw [ends_bind, ends_page hpage]
  split
  · next hnow =>
    refine (ends_writeBack_any h e).mono ?_ fun _ _ hfault => hfault.2
    rintro - e' ⟨page', store, hpage', hputs, hafter⟩
    obtain rfl := Option.some.inj (hpage.symm.trans hpage')
    exact ⟨page, hpage, by rw [if_pos hnow]; exact ⟨hh, hpage, hdue page hnow, store, hputs, hafter⟩⟩
  · next hnot => exact ⟨page, hpage, by rw [if_neg hnot]⟩

/-- Until its turn comes a page stays as it is. -/
theorem ends_flushList_saves {due : HeapPage → Bool} (hdue : ∀ page, due page = true → page.isDirty = true)
    (handles : List Handle) (hb : e.cache.Bounded) (hcached : ∀ h ∈ handles, e.cache.handle? h.page = some h) :
    Ends (handles.forM fun h => do if due (← Op.page h) then writeBack h) e
      (fun _ e' => PoolSteps (Flushing (due ·)) e [] none e' ∧ ∀ h ∈ handles, ∀ page,
        e.cache.page? h = some page → due page = true → Saves (Flushing (due ·)) h page e e')
      fun _ e' => PoolSteps (Flushing (due ·)) e [] none e' := by
  induction handles generalizing e with
  | nil => exact ⟨.refl, by simp⟩
  | cons first rest ih =>
    rw [List.forM_eq_forM, List.forM_cons, ends_bind]
    refine (ends_flushOne_written hdue hb (hcached first List.mem_cons_self)).mono ?_ fun _ _ hsame => hsame ▸ .refl
    rintro - e₁ ⟨page, hpage, hone⟩
    split at hone
    · next hnow =>
      have hfirst : PoolSteps (Flushing (due ·)) e [] none e₁ := hone.steps hnow
      have hrest : ∀ h ∈ rest, e₁.cache.handle? h.page = some h := fun h hmem =>
        (hone.handle? _).trans (hcached h (List.mem_cons_of_mem _ hmem))
      refine (ih (hone.bounded hb) hrest).mono ?_ fun _ _ hsteps => hfirst.trans hsteps
      rintro - e' ⟨hsteps, hsaves⟩
      refine ⟨hfirst.trans hsteps, fun h hmem page' hpage' hdue' => ?_⟩
      by_cases heq : h = first
      · subst heq
        obtain rfl := Option.some.inj (hpage.symm.trans hpage')
        exact .of_written hone hsteps
      · have hlater := (List.mem_cons.1 hmem).resolve_left heq
        have hsame := hone.page?_of_ne hb (hcached h hmem) heq
        exact (hsaves h hlater page' (hsame.trans hpage') hdue').after hfirst
    · next hnot =>
      subst hone
      refine (ih hb fun h hmem => hcached h (List.mem_cons_of_mem _ hmem)).mono ?_ fun _ _ hsteps => hsteps
      rintro - e' ⟨hsteps, hsaves⟩
      refine ⟨hsteps, fun h hmem page' hpage' hdue' => ?_⟩
      rcases List.mem_cons.1 hmem with rfl | hlater
      · obtain rfl := Option.some.inj (hpage.symm.trans hpage')
        exact absurd hdue' hnot
      · exact hsaves h hlater page' hpage' hdue'

theorem ends_flushWhere_saves {due : HeapPage → Bool} (hdue : ∀ page, due page = true → page.isDirty = true)
    (hb : e.cache.Bounded) :
    Ends (flushWhere due) e
      (fun _ e' => PoolSteps (Flushing (due ·)) e [] none e' ∧ ∀ h page, e.cache.handle? h.page = some h →
        e.cache.page? h = some page → due page = true → Saves (Flushing (due ·)) h page e e')
      fun _ e' => PoolSteps (Flushing (due ·)) e [] none e' := by
  unfold flushWhere
  rw [ends_bind, ends_get]
  refine (ends_flushList_saves hdue _ hb fun h hmem => mem_handles.1 hmem).mono ?_ fun _ _ hsteps => hsteps
  rintro - e' ⟨hsteps, hsaves⟩
  exact ⟨hsteps, fun h page hcached hpage hnow => hsaves h (mem_handles.2 hcached) page hpage hnow⟩

theorem ends_flushPage_saves (hb : e.cache.Bounded) (p : PageId) :
    Ends (flushPage p) e
      (fun _ e' => PoolSteps (Flushing (·.id = p)) e [] none e' ∧ ∀ h page, e.cache.handle? p = some h →
        e.cache.page? h = some page → page.isDirty = true → Saves (Flushing (·.id = p)) h page e e')
      fun _ e' => PoolSteps (Flushing (·.id = p)) e [] none e' := by
  unfold flushPage
  rw [ends_bind, ends_get]
  cases hh : e.cache.handle? p with
  | none => exact ⟨.refl, by simp⟩
  | some h =>
    obtain ⟨page, hpage, -, hid⟩ := hb.toSound.exists_copy hh
    have hcached : e.cache.handle? h.page = some h := by rwa [(Cache.handle?_eq_some_iff.1 hh).2]
    dsimp only
    rw [ends_bind]
    refine (ends_writeBackIfDirty_written hb hcached).mono ?_ fun _ _ hfault => hfault.2 ▸ .refl
    rintro - e' ⟨page', hpage', hone⟩
    obtain rfl := Option.some.inj (hpage.symm.trans hpage')
    split at hone
    · refine ⟨hone.steps hid, fun h' page' hh' hpage' _ => ?_⟩
      obtain rfl := Option.some.inj hh'
      obtain rfl := Option.some.inj (hpage.symm.trans hpage')
      exact .of_written hone .refl
    · next hclean =>
      subst hone
      refine ⟨.refl, fun h' page' hh' hpage' hdirty => ?_⟩
      obtain rfl := Option.some.inj hh'
      obtain rfl := Option.some.inj (hpage.symm.trans hpage')
      exact absurd hdirty hclean

theorem ends_flushTxn_saves (hb : e.cache.Bounded) (txn : TxnId) :
    Ends (flushTxn txn) e
      (fun _ e' => PoolSteps (Flushing (·.dirtiedBy = some txn)) e [] none e' ∧
        ∀ h page, e.cache.handle? h.page = some h → e.cache.page? h = some page → page.dirtiedBy = some txn →
          Saves (Flushing (·.dirtiedBy = some txn)) h page e e')
      fun _ e' => PoolSteps (Flushing (·.dirtiedBy = some txn)) e [] none e' := by
  have hdirty : ∀ page : HeapPage, decide (page.dirtiedBy = some txn) = true → page.isDirty = true := by
    intro page hdue
    rw [HeapPage.isDirty, of_decide_eq_true hdue]
    rfl
  have hwork := Flushing.mono fun page : HeapPage => of_decide_eq_true (p := page.dirtiedBy = some txn)
  refine (ends_flushWhere_saves hdirty hb).mono ?_ fun _ _ hsteps => hsteps.mono hwork
  rintro - e' ⟨hsteps, hsaves⟩
  refine ⟨hsteps.mono hwork, fun h page hcached hpage hdue => ?_⟩
  exact (hsaves h page hcached hpage (decide_eq_true hdue)).mono hwork

theorem ends_flushAll_saves (hb : e.cache.Bounded) :
    Ends flushAll e
      (fun _ e' => PoolSteps (Flushing (·.isDirty = true)) e [] none e' ∧ ∀ h page, e.cache.handle? h.page = some h →
        e.cache.page? h = some page → page.isDirty = true → Saves (Flushing (·.isDirty = true)) h page e e')
      fun _ e' => PoolSteps (Flushing (·.isDirty = true)) e [] none e' := ends_flushWhere_saves (fun _ hdue => hdue) hb

theorem ends_commit_saves (hb : e.cache.Bounded) (txn : TxnId) :
    Ends (commit txn) e
      (fun _ e' => PoolSteps (Flushing (·.dirtiedBy = some txn)) e [] none e' ∧
        ∀ h page, e.cache.handle? h.page = some h → e.cache.page? h = some page → page.dirtiedBy = some txn →
          Saves (Flushing (·.dirtiedBy = some txn)) h page e e')
      fun _ e' => PoolSteps (Flushing (·.dirtiedBy = some txn)) e [] none e' := by
  unfold commit releaseAll
  simp only [ends_bind, ends_tryCatch, ends_modify]
  refine (ends_flushTxn_saves hb txn).mono ?_ fun _ e' hsteps => hsteps.other (.locks e' _)
  rintro - e' ⟨hsteps, hsaves⟩
  exact ⟨hsteps.other (.locks e' _),
    fun h page hcached hpage hdue => (hsaves h page hcached hpage hdue).other (.locks e' _)⟩

/-! ### Inserting -/

theorem ends_probe_steps (hb : e.cache.Bounded) (txn : TxnId) (p : PageId) :
    Ends (probe txn p) e
      (fun room e' => PoolSteps Idly e [p] none e' ∧ ∃ h page, e'.cache.handle? p = some h ∧
        e'.cache.page? h = some page ∧ room = decide (0 < page.numFree))
      fun _ e' => ∃ wanted, PoolSteps Idly e [] wanted e' := by
  unfold probe
  rw [ends_bind]
  refine (ends_getPage_steps hb txn p .readOnly).mono ?_ fun _ _ h => h
  rintro h e₁ ⟨hsteps, hh⟩
  obtain ⟨page, hpage, -⟩ := (hsteps.bounded hb).toSound.exists_copy hh
  rw [ends_bind, ends_page hpage, ends_pure]
  exact ⟨hsteps, h, page, hh, hpage, rfl⟩

/-- The page that takes the tuple is accessed twice, one that is full once. -/
theorem ends_tryPage_steps (hb : e.cache.Bounded) (txn : TxnId) (t : Tuple) (p : PageId) :
    Ends (tryPage txn t p) e
      (fun result e' => match result with
        | some placed => PoolSteps (· = .change placed.2) e [p, p] none e' ∧ e'.cache.handle? p = some placed.2
        | none => PoolSteps Idly e [p] none e')
      fun _ e' => ∃ again wanted, PoolSteps Idly e (List.replicate again p) wanted e' := by
  unfold tryPage holdsLock
  simp only [ends_bind, ends_get, ends_pure]
  refine (ends_probe_steps hb txn p).mono ?_ fun _ _ h => ⟨0, h⟩
  rintro room e₁ ⟨hsteps, h, page, hh, hpage, rfl⟩
  split
  · next hroom =>
    rw [ends_bind]
    refine (ends_getPage_of_cached hh txn .readWrite).mono ?_ ?_
    · rintro h' - ⟨rfl, locks, rfl⟩
      have hagain : PoolSteps Idly e [p, p] none { e₁ with locks, cache := e₁.cache.touch p } :=
        (hsteps.access (.accessed (by rw [hh]; rfl)) (by simp)).other
          (.locks { e₁ with cache := e₁.cache.touch p } locks)
      have hpage' : ({ e₁ with locks, cache := e₁.cache.touch p } : Engine).cache.page? h' = some page := hpage
      rw [ends_bind, ends_page hpage']
      cases hinsert : page.insert t with
      | ok result =>
        exact ⟨(hagain.widen _).changes hb hh hpage' (HeapPage.id_of_insert hinsert) rfl, hh⟩
      | error cause =>
        have hcause : ∀ q, cause ≠ .pageFull q := by
          rintro q rfl
          exact HeapPage.insert_ne_pageFull (of_decide_eq_true hroom) q hinsert
        cases cause with
        | pageFull q => exact absurd rfl (hcause q)
        | _ => exact ⟨2, none, hagain⟩
    · rintro cause - ⟨-, locks, rfl⟩
      exact ⟨1, none, hsteps.other (.locks e₁ locks)⟩
  · cases e.locks.holds p txn with
    | true => exact hsteps
    | false => exact hsteps.other (.locks e₁ _)

theorem ends_allocate_step {fd : Descriptor} {u : TableId} (hfd : e.catalog.file u = .ok fd) :
    Ends (FileOp.allocate fd) e.store (fun _ s => PoolStep e (.work (.append u)) { e with store := s })
      fun _ s => s = e.store := by
  cases hf : e.store.file? fd with
  | none =>
    unfold FileOp.allocate
    rw [ends_bind]
    refine (FileOp.ends_file_any fd e.store).mono (fun f _ hsome => ?_) fun _ _ h => h.2
    rw [hf] at hsome
    simp at hsome
  | some f =>
    rw [FileOp.ends_allocate hf]
    exact .appended hfd hf

theorem ends_insertInto_steps (hb : e.cache.Bounded) (txn : TxnId) (p : PageId) (t : Tuple) :
    Ends (insertInto txn p t) e
      (fun result e' => PoolSteps (· = .change result.2) e [p] none e' ∧ e'.cache.handle? p = some result.2)
      fun _ e' => ∃ again wanted, PoolSteps Idly e (List.replicate again p) wanted e' := by
  unfold insertInto
  rw [ends_bind]
  refine (ends_getPage_steps hb txn p .readWrite).mono ?_ fun _ _ h => ⟨0, h⟩
  rintro h e₁ ⟨hsteps, hh⟩
  obtain ⟨page, hpage, -⟩ := (hsteps.bounded hb).toSound.exists_copy hh
  unfold insertOn setPage modifyCache
  simp only [ends_bind, ends_page hpage, ends_liftExcept, ends_modify, ends_pure]
  refine ⟨fun result hinsert => ⟨?_, hh⟩, fun _ _ => ⟨1, none, hsteps⟩⟩
  exact (hsteps.widen _).changes hb hh hpage (HeapPage.id_of_insert hinsert) rfl

/-- The pages are looked at one after the other; the last one that is accessed takes the tuple. -/
theorem ends_insertFirstFit_steps (hb : e.cache.Bounded) {fd : Descriptor} {u : TableId}
    (hfd : e.catalog.file u = .ok fd) (txn : TxnId) (t : Tuple) (table : TableId) (n pages : Nat) :
    Ends (insertFirstFit fd txn t table (List.range' n pages)) e
      (fun result e' => ∃ k, PoolSteps (fun w => w = .change result.2 ∨ w = .append u) e
        (result.2.page :: visited table n k) none e' ∧ e'.cache.handle? result.2.page = some result.2)
      fun _ e' => ∃ q again k wanted,
        PoolSteps (· = .append u) e (List.replicate again q ++ visited table n k) wanted e' := by
  induction pages generalizing e n with
  | zero =>
    rw [List.range'_zero, insertFirstFit, ends_bind, ends_onFiles]
    refine (ends_allocate_step hfd).mono ?_ ?_
    · intro p s hstep
      refine (ends_insertInto_steps (e := { e with store := s }) hb txn p t).mono ?_ ?_
      · rintro result e' ⟨hsteps, hh⟩
        have hp : result.2.page = p := (Cache.handle?_eq_some_iff.1 hh).2
        have hgrown : PoolSteps (fun w => w = .change result.2 ∨ w = .append u) e [] none { e with store := s } :=
          PoolSteps.refl.work hstep (Or.inr rfl)
        exact ⟨0, by rw [hp]; exact hgrown.trans (hsteps.mono fun _ => Or.inl), by rw [hp, hh]⟩
      · rintro cause e' ⟨again, wanted, hsteps⟩
        have hgrown : PoolSteps (· = .append u) e [] none { e with store := s } := PoolSteps.refl.work hstep rfl
        exact ⟨p, again, 0, wanted, hgrown.trans (hsteps.widen _)⟩
    · exact fun cause s hstore => ⟨⟨table, n⟩, 0, 0, none, hstore ▸ .refl⟩
  | succ pages ih =>
    rw [List.range'_succ, insertFirstFit_cons, ends_bind]
    refine (ends_tryPage_steps hb txn t ⟨table, n⟩).mono ?_ ?_
    · intro result e₁ htry
      cases result with
      | some placed =>
        obtain ⟨hsteps, hh⟩ := htry
        have hp : placed.2.page = ⟨table, n⟩ := (Cache.handle?_eq_some_iff.1 hh).2
        exact ⟨1, by rw [hp]; exact hsteps.mono fun _ => Or.inl, by rw [hp, hh]⟩
      | none =>
        have hsteps : PoolSteps Idly e [⟨table, n⟩] none e₁ := htry
        refine (ih (hsteps.bounded hb) (hsteps.catalog ▸ hfd) (n + 1)).mono ?_ ?_
        · rintro placed e' ⟨k, hrest, hh⟩
          refine ⟨k + 1, ?_, hh⟩
          rw [visited_succ]
          exact (hsteps.widen _).trans hrest
        · rintro cause e' ⟨q, again, k, wanted, hrest⟩
          refine ⟨q, again, k + 1, wanted, ?_⟩
          rw [visited_succ, ← List.append_assoc]
          exact (hsteps.widen _).trans hrest
    · rintro cause e' ⟨again, wanted, hsteps⟩
      exact ⟨⟨table, n⟩, again, 0, wanted, by rw [visited_zero, List.append_nil]; exact hsteps.widen _⟩

theorem ends_insertIntoFile_steps (hb : e.cache.Bounded) {fd : Descriptor} {u : TableId}
    (hfd : e.catalog.file u = .ok fd) (txn : TxnId) (t : Tuple) :
    Ends (insertIntoFile fd txn t) e
      (fun result e' => ∃ table k, PoolSteps (fun w => w = .change result.2 ∨ w = .append u) e
        (result.2.page :: visited table 0 k) none e' ∧ e'.cache.handle? result.2.page = some result.2)
      fun _ e' => ∃ q again table k wanted,
        PoolSteps (· = .append u) e (List.replicate again q ++ visited table 0 k) wanted e' := by
  unfold insertIntoFile
  rw [ends_bind, ends_onFiles]
  refine (FileOp.ends_file_any fd e.store).mono ?_ ?_
  · rintro f s ⟨-, rfl⟩
    split
    · rw [List.range_eq_range']
      refine (ends_insertFirstFit_steps hb hfd txn t f.table 0 f.numPages).mono ?_ ?_
      · exact fun result e' ⟨k, hsteps, hh⟩ => ⟨f.table, k, hsteps, hh⟩
      · exact fun _ e' ⟨q, again, k, wanted, hsteps⟩ => ⟨q, again, f.table, k, wanted, hsteps⟩
    · exact ⟨⟨0, 0⟩, 0, 0, 0, none, .refl⟩
  · rintro cause s ⟨-, rfl⟩
    exact ⟨⟨0, 0⟩, 0, 0, 0, none, .refl⟩

/-- Marking the page of a cached object and adopting the object is one more access. -/
theorem ends_markDirty_adopt_steps (hb : e.cache.Bounded) (hh : e.cache.handle? h.page = some h) (txn : TxnId) :
    Ends (do markDirty h txn; adopt h; return h) e
      (fun h' e' => h' = h ∧ PoolSteps (· = .change h) e [h.page] none e' ∧ e'.cache.handle? h.page = some h)
      fun _ _ => False := by
  obtain ⟨page, hpage, -⟩ := hb.toSound.exists_copy hh
  unfold markDirty adopt setPage modifyCache
  simp only [ends_bind, ends_page hpage, ends_modify, ends_get, Cache.handle?_setPage, hh, if_true]
  have hmarked : PoolSteps (· = .change h) e [] none { e with cache := e.cache.setPage h (page.markDirty txn) } :=
    PoolSteps.refl.changes hb hh hpage rfl rfl
  exact ⟨rfl, hmarked.access (.accessed (by rw [Cache.handle?_setPage, hh]; rfl)) (by simp), hh⟩

theorem settles_insert_steps (hb : e.cache.Bounded) (txn : TxnId) (table : TableId) (t : Tuple) :
    Settles (insert txn table t) e fun result e' => match result.outcome with
      | .ok h => ∃ t k, PoolSteps (fun w => w = .change h ∨ w = .append table) e
          (h.page :: h.page :: visited t 0 k) none e' ∧ e'.cache.handle? h.page = some h
      | .error _ => ∃ q again t k wanted,
          PoolSteps (· = .append table) e (List.replicate again q ++ visited t 0 k) wanted e' := by
  unfold insert
  rw [settles_bind, settles_run, ends_bind]
  refine (ends_tableFile_any table e).mono ?_ fun _ _ ⟨_, hsame⟩ => ⟨⟨0, 0⟩, 0, 0, 0, none, hsame ▸ .refl⟩
  rintro fd e₁ ⟨hfd, rfl⟩
  refine (ends_insertIntoFile_steps hb hfd txn t).mono ?_ fun _ _ h => h
  rintro placed e₂ ⟨t, k, hsteps, hh⟩
  dsimp only
  rw [settles_bind, settles_run]
  apply (ends_markDirty_adopt_steps (hsteps.bounded hb) hh txn).mono_ok
  rintro h e₃ ⟨rfl, hadopted, hh'⟩
  exact ⟨t, k, hsteps.trans (hadopted.mono fun _ => Or.inl), hh'⟩

/-! ### Deleting -/

theorem ends_deleteFromFile_steps (hb : e.cache.Bounded) (fd : Descriptor) (txn : TxnId) (r : RecordId) :
    Ends (deleteFromFile fd txn (some r)) e
      (fun h e' => PoolSteps (· = .change h) e [r.page] none e' ∧ e'.cache.handle? r.page = some h)
      fun _ e' => ∃ log wanted, PoolSteps Idly e log wanted e' ∧ (log = [] ∨ log = [r.page]) := by
  unfold deleteFromFile
  rw [ends_bind, ends_onFiles]
  refine (FileOp.ends_file_any fd e.store).mono ?_ fun _ s hfault => ⟨[], none, hfault.2 ▸ .refl, Or.inl rfl⟩
  rintro f s ⟨-, rfl⟩
  dsimp only
  split
  · rw [ends_bind]
    refine (ends_getPage_steps hb txn r.page .readWrite).mono ?_ fun _ _ h => h.elim fun wanted hsteps =>
      ⟨[], wanted, hsteps, Or.inl rfl⟩
    rintro h e₁ ⟨hsteps, hh⟩
    obtain ⟨page, hpage, -⟩ := (hsteps.bounded hb).toSound.exists_copy hh
    unfold setPage modifyCache
    simp only [ends_bind, ends_page hpage, ends_liftExcept, ends_modify, ends_pure]
    refine ⟨fun page' hdelete => ⟨?_, hh⟩, fun _ _ => ⟨[r.page], none, hsteps, Or.inr rfl⟩⟩
    exact (hsteps.widen _).changes hb hh hpage (HeapPage.id_of_delete hdelete) rfl
  · exact ⟨[], none, .refl, Or.inl rfl⟩

theorem ends_delete_steps (hb : e.cache.Bounded) (txn : TxnId) (r : Option RecordId) :
    Ends (delete txn r) e
      (fun h e' => ∃ rid, r = some rid ∧ PoolSteps (· = .change h) e [rid.page] none e' ∧
        e'.cache.handle? rid.page = some h)
      fun _ e' => ∃ log wanted, PoolSteps Idly e log wanted e' ∧
        (log = [] ∨ ∃ rid, r = some rid ∧ log = [rid.page]) := by
  have hnothing : ∃ log wanted, PoolSteps Idly e log wanted e ∧ (log = [] ∨ ∃ rid, r = some rid ∧ log = [rid.page]) :=
    ⟨[], none, .refl, Or.inl rfl⟩
  unfold delete
  cases r with
  | none => exact hnothing
  | some rid =>
    dsimp only
    rw [ends_bind, ends_get]
    split
    · rw [ends_bind]
      refine (ends_tableFile_any rid.page.table e).mono ?_ fun _ _ ⟨_, hsame⟩ => hsame ▸ hnothing
      rintro fd e₁ ⟨-, rfl⟩
      rw [ends_bind]
      refine (ends_deleteFromFile_steps hb fd txn rid).mono ?_ fun _ _ ⟨log, wanted, hsteps, hlog⟩ =>
        ⟨log, wanted, hsteps, hlog.imp_right fun hlog => ⟨rid, rfl, hlog⟩⟩
      rintro h e₂ ⟨hsteps, hh⟩
      obtain ⟨page, hpage, -⟩ := (hsteps.bounded hb).toSound.exists_copy hh
      unfold markDirty setPage modifyCache
      simp only [ends_bind, ends_page hpage, ends_modify, ends_pure]
      exact ⟨rid, rfl, hsteps.changes hb hh hpage rfl rfl, hh⟩
    · exact hnothing

end Op

/-! ### Scans -/

namespace Scan

open Engine

variable {e e' : Engine}

theorem settles_look_steps (hb : e.cache.Bounded) (t : TableId) (txn : TxnId) (pos : Position) :
    Settles (look t txn pos) e fun answer e' => match answer with
      | none | some (.ok _, _) => PoolSteps Idly e [⟨t, pos.page⟩] none e'
      | some (.error _, _) => ∃ wanted, PoolSteps Idly e [] wanted e' := by
  unfold look
  simp only [settles_bind, settles_get, settles_run, ends_bind]
  refine (Op.ends_getPage_steps hb txn ⟨t, pos.page⟩ .readOnly).mono ?_ fun _ _ h => h
  rintro h e₁ ⟨hsteps, hh⟩
  obtain ⟨page, hpage, -⟩ := (hsteps.bounded hb).toSound.exists_copy hh
  rw [Op.ends_page hpage]
  cases (page.nextUsed? pos.slot).bind fun slot => (page.tuple? slot).map (slot, ·) with
  | some found => exact hsteps
  | none =>
    cases page.isEmpty && !e.locks.holds ⟨t, pos.page⟩ txn with
    | true => exact hsteps.other (.locks e₁ _)
    | false => exact hsteps

theorem settles_search_steps (hb : e.cache.Bounded) (t : TableId) (txn : TxnId) (pages : Nat) (pos : Position) :
    Settles (search t txn pages pos) e fun _ e' => ∃ k wanted, PoolSteps Idly e (visited t pos.page k) wanted e' := by
  induction pages generalizing e pos with
  | zero => exact ⟨0, none, .refl⟩
  | succ pages ih =>
    rw [search_succ, settles_bind]
    apply (settles_look_steps hb t txn pos).mono
    rintro answer e₁ hlook
    match answer, hlook with
    | none, hsteps =>
      apply (ih (hsteps.bounded hb) ⟨pos.page + 1, 0⟩).mono
      rintro - e' ⟨k, wanted, hrest⟩
      refine ⟨k + 1, wanted, ?_⟩
      rw [visited_succ]
      exact hsteps.trans hrest
    | some (.ok _, _), hsteps => exact ⟨1, none, hsteps⟩
    | some (.error _, _), ⟨wanted, hsteps⟩ => exact ⟨0, wanted, hsteps⟩

theorem settles_seek_steps (hb : e.cache.Bounded) (s : Scan) :
    Settles s.seek e fun _ e' => ∃ t k wanted, PoolSteps Idly e (visited t s.position.page k) wanted e' := by
  unfold seek
  rw [settles_bind, settles_get]
  cases e.store.file? s.file with
  | none => exact ⟨0, 0, none, .refl⟩
  | some f =>
    obtain ⟨k, wanted, hsteps⟩ :=
      settles_search_steps hb f.table s.txn (f.numPages - s.position.page) s.position
    exact ⟨f.table, k, wanted, hsteps⟩

theorem settles_hasNext_steps (hb : e.cache.Bounded) (s : Scan) :
    Settles s.hasNext e fun _ e' => ∃ t k wanted, PoolSteps Idly e (visited t s.position.page k) wanted e' := by
  unfold hasNext
  cases s.isOpen with
  | false => exact ⟨0, 0, none, .refl⟩
  | true => exact settles_seek_steps hb s

theorem settles_next_steps (hb : e.cache.Bounded) (s : Scan) :
    Settles s.next e fun _ e' => ∃ t k wanted, PoolSteps Idly e (visited t s.position.page k) wanted e' := by
  unfold next
  cases s.isOpen with
  | false => exact ⟨0, 0, none, .refl⟩
  | true =>
    simp only [Bool.not_true, Bool.false_eq_true, if_false, settles_bind]
    apply (settles_seek_steps hb s).mono
    intro answer e' hsteps
    obtain ⟨result, s'⟩ := answer
    cases result with
    | error cause => exact hsteps
    | ok found => cases found <;> exact hsteps

end Scan

end HeapStore
