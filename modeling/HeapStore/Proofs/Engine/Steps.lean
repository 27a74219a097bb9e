import HeapStore.Engine.Scan
import HeapStore.Proofs.Cache.Eviction
import HeapStore.Proofs.Engine.Places

/-!
# What the pool does, step by step

All that an operation does to files and cache are steps of a few kinds. Some come of what is asked for: a cached page
is accessed, a page is loaded where there is room, and the oldest page that nobody holds is given up to make room for
another one, after it was written if it counts as changed. The others are the work of particular calls (`Engine.Work`):
the page of an object is replaced, a page is written to its file, or a page is appended. Besides, locks come and go and
what is read is counted, which leaves files and cache as they are (`Engine.PoolStep`).

A series of steps comes with the work that may be part of it, and with the pages that it accesses, the last one first;
after room was made for a page, this page is loaded next, or the series ends there (`Engine.PoolSteps`).

Nothing is known of the files and the tables here, only that the cache is bounded. What one step keeps is kept by
all: the cache stays bounded, callers hold what they held, and what is held and cached stays cached
(`PoolSteps.pinned`). A page leaves the cache only if room is made for another one, and it is the one of those nobody
holds that was not accessed for the longest time (`PoolStep.evicts`).
-/

namespace HeapStore

namespace Engine

/-- What a step may do to objects and files, besides what comes of accesses. -/
inductive Work where
  /-- The page of an object is replaced. -/
  | change (h : Handle)
  /-- A page that is cached is written to its file. -/
  | write (page : HeapPage)
  /-- The file of a table gets one page more. -/
  | append (t : TableId)

/-- What a step is known for. -/
inductive Deed where
  | access (p : PageId)
  /-- Room was made for a page. -/
  | room (q : PageId)
  | work (w : Work)
  | other

/-- The accesses after a step, the last one first. -/
def Deed.log : Deed → List PageId → List PageId
  | access p, log => p :: log
  | room _, log | work _, log | other, log => log

/-- One thing that happens to files or cache. -/
inductive PoolStep (e : Engine) : Deed → Engine → Prop
  /-- Something happens, but not to the tables, the contents of their files and the cache. -/
  | other {e' : Engine} (hcatalog : e'.catalog = e.catalog) (hstore : e.store.Alike e'.store)
      (hcache : e'.cache = e.cache) : PoolStep e .other e'
  /-- A cached page is accessed. -/
  | accessed {p : PageId} (hp : (e.cache.handle? p).isSome = true) :
      PoolStep e (.access p) { e with cache := e.cache.touch p }
  /-- A page that is not cached is loaded from its file; there is room for it. -/
  | loaded {page : HeapPage} (hmissing : e.cache.handle? page.id = none) (hroom : e.cache.isFull = false)
      (hstored : e.stored page.id = .ok page) : PoolStep e (.access page.id) { e with cache := (e.cache.load page).2 }
  /-- Room is made for a page that is not cached: the victim is given up, after it was written to its file if it
  counts as changed. -/
  | evicted {q p : PageId} {h : Handle} {page : HeapPage} {store : FileStore} (hmissing : e.cache.handle? q = none)
      (hfull : e.cache.isFull = true) (hvictim : e.cache.victim? = some p) (hh : e.cache.handle? p = some h)
      (hpage : e.cache.page? h = some page) (hstore : if page.isDirty then e.Puts page store else store = e.store) :
      PoolStep e (.room q) { e with store, cache := e.cache.giveUp h page }
  /-- A cached page that counts as changed is written to its file and counts as unchanged from then on. -/
  | written {p : PageId} {h : Handle} {page : HeapPage} {store : FileStore} (hh : e.cache.handle? p = some h)
      (hpage : e.cache.page? h = some page) (hdirty : page.isDirty = true) (hstore : e.Puts page store) :
      PoolStep e (.work (.write page)) { e with store, cache := e.cache.setPage h page.markClean }
  /-- An object gets another page of the same id. -/
  | changed {h : Handle} {page page' : HeapPage} (hpage : e.cache.page? h = some page) (hid : page.id = h.page)
      (hid' : page'.id = h.page) : PoolStep e (.work (.change h)) { e with cache := e.cache.setPage h page' }
  /-- A page without tuples is appended to the file of a table. -/
  | appended {t : TableId} {fd : Descriptor} {f : HeapFile} (hfd : e.catalog.file t = .ok fd)
      (hf : e.store.file? fd = some f) : PoolStep e (.work (.append t)) (e.appended fd f)

/-- Any number of steps, in which only some work may be done. They come with the pages that they access, the last one
first, and with the page that room was made for last, if it was not loaded yet. -/
inductive PoolSteps (may : Work → Prop) (e : Engine) : List PageId → Option PageId → Engine → Prop
  | refl : PoolSteps may e [] none e
  | other {log : List PageId} {wanted : Option PageId} {e₁ e₂ : Engine} (h : PoolSteps may e log wanted e₁)
      (hstep : PoolStep e₁ .other e₂) : PoolSteps may e log wanted e₂
  | work {log : List PageId} {wanted : Option PageId} {w : Work} {e₁ e₂ : Engine} (h : PoolSteps may e log wanted e₁)
      (hstep : PoolStep e₁ (.work w) e₂) (hmay : may w) : PoolSteps may e log wanted e₂
  | room {log : List PageId} {q : PageId} {e₁ e₂ : Engine} (h : PoolSteps may e log none e₁)
      (hstep : PoolStep e₁ (.room q) e₂) : PoolSteps may e log (some q) e₂
  | access {log : List PageId} {wanted : Option PageId} {p : PageId} {e₁ e₂ : Engine}
      (h : PoolSteps may e log wanted e₁) (hstep : PoolStep e₁ (.access p) e₂)
      (hwanted : ∀ q, wanted = some q → q = p) : PoolSteps may e (p :: log) none e₂

/-- No work at all. -/
def Idly (_ : Work) : Prop := False

variable {e e' e'' : Engine} {p q : PageId} {wanted : Option PageId} {deed : Deed} {log log' : List PageId}
  {h : Handle} {may may' : Work → Prop} {held : Handle → Prop}

theorem PoolSteps.trans (h : PoolSteps may e log none e') (h' : PoolSteps may e' log' wanted e'') :
    PoolSteps may e (log' ++ log) wanted e'' := by
  induction h' with
  | refl => exact h
  | other _ hstep ih => exact ih.other hstep
  | work _ hstep hmay ih => exact ih.work hstep hmay
  | room _ hstep ih => exact ih.room hstep
  | access _ hstep hwanted ih => exact ih.access hstep hwanted

theorem PoolSteps.mono (h : PoolSteps may e log wanted e') (hmay : ∀ w, may w → may' w) :
    PoolSteps may' e log wanted e' := by
  induction h with
  | refl => exact .refl
  | other _ hstep ih => exact ih.other hstep
  | work _ hstep hw ih => exact ih.work hstep (hmay _ hw)
  | room _ hstep ih => exact ih.room hstep
  | access _ hstep hwanted ih => exact ih.access hstep hwanted

/-- Steps without work are steps in which some work may be done. -/
theorem PoolSteps.widen (h : PoolSteps Idly e log wanted e') (may : Work → Prop) : PoolSteps may e log wanted e' :=
  h.mono fun _ hw => hw.elim

/-- What every step leads on to holds after all of them. -/
theorem PoolSteps.of_step {P : List PageId → Engine → Prop} (h : PoolSteps may e log wanted e') (hstart : P [] e)
    (hstep : ∀ {log e₁ deed e₂}, P log e₁ → PoolStep e₁ deed e₂ → (∀ w, deed = .work w → may w) →
      P (deed.log log) e₂) : P log e' := by
  induction h with
  | refl => exact hstart
  | other _ hother ih => exact hstep ih hother nofun
  | work _ hwork hmay ih => exact hstep ih hwork fun w heq => Deed.work.inj heq ▸ hmay
  | room _ hroom ih => exact hstep ih hroom nofun
  | access _ haccess _ ih => exact hstep ih haccess nofun

/-! ### What a step keeps -/

theorem PoolStep.minds (h : PoolStep e deed e') (hb : e.cache.Bounded) : e.cache.Minds e'.cache := by
  cases h with
  | other _ _ hcache => exact hcache ▸ .refl _
  | accessed => exact Cache.minds_touch _ _
  | loaded hmissing => exact Cache.minds_load hb.toSound hmissing
  | evicted _ _ _ _ hpage => exact Cache.minds_giveUp hpage
  | written _ hpage => exact Cache.minds_setPage hpage rfl
  | changed hpage hid hid' => exact Cache.minds_setPage hpage (hid'.trans hid.symm)
  | appended => exact .refl _

theorem PoolStep.bounded (h : PoolStep e deed e') (hb : e.cache.Bounded) : e'.cache.Bounded := by
  cases h with
  | other _ _ hcache => exact hcache ▸ hb
  | accessed hp => exact hb.touch hp
  | loaded hmissing hroom => exact hb.load hmissing hroom
  | evicted _ _ _ _ hpage => exact hb.giveUp hpage
  | written _ hpage => exact hb.setPage hpage rfl
  | changed hpage hid hid' => exact hb.setPage hpage (hid'.trans hid.symm)
  | appended => exact hb

/-- What is accessed is accessed last. -/
theorem PoolStep.follows (h : PoolStep e deed e') (hlog : e.cache.recency.Follows log) :
    e'.cache.recency.Follows (deed.log log) := by
  cases h with
  | other _ _ hcache => exact hcache ▸ hlog
  | accessed => exact hlog.access _
  | loaded hmissing =>
    dsimp only
    rw [Cache.load_eq hmissing]
    exact hlog.access _
  | evicted =>
    dsimp only
    rw [Cache.recency_giveUp]
    exact hlog.remove _
  | written => exact hlog
  | changed => exact hlog
  | appended => exact hlog

/-- An object that is held and cached stays cached. -/
theorem PoolStep.pinned (hstep : PoolStep e deed e') (hb : e.cache.Bounded) (hh : e.cache.handle? h.page = some h)
    (hheld : 0 < e.cache.holders h.object) : e'.cache.handle? h.page = some h := by
  cases hstep with
  | other _ _ hcache => rw [hcache, hh]
  | accessed => exact hh
  | @loaded page hmissing =>
    rw [Cache.handle?_load hmissing, if_neg, hh]
    intro heq
    rw [← heq, hh] at hmissing
    simp at hmissing
  | evicted _ _ hvictim hh' =>
    rw [Cache.handle?_giveUp, (Cache.handle?_eq_some_iff.1 hh').2, if_neg (hb.victim_ne hvictim hh hheld), hh]
  | written => exact hh
  | changed => exact hh
  | appended => exact hh

/-- What an object shows that is held and cached: the same page as before, though it may have been written, unless
the step is a change of this object. -/
theorem PoolStep.shows {page : HeapPage} (hstep : PoolStep e deed e') (hb : e.cache.Bounded)
    (hh : e.cache.handle? h.page = some h) (hheld : 0 < e.cache.holders h.object)
    (hpage : e.cache.page? h = some page) (hother : deed ≠ .work (.change h)) :
    e'.cache.page? h = some page ∨ e'.cache.page? h = some page.markClean := by
  have hafter := hstep.pinned hb hh hheld
  have hcopy : e.cache.copy? h.page = some page := (Cache.copy?_eq_of_handle? hh).trans hpage
  rw [← Cache.copy?_eq_of_handle? hafter]
  cases hstep with
  | other _ _ hcache => exact Or.inl (hcache ▸ hcopy)
  | accessed => exact Or.inl hcopy
  | @loaded page' hmissing =>
    refine Or.inl ((hb.copy?_load hmissing h.page).trans ?_)
    rw [if_neg, hcopy]
    intro heq
    rw [← heq, hh] at hmissing
    simp at hmissing
  | evicted _ _ hvictim hh' hpage' =>
    exact Or.inl ((hb.copy?_giveUp hh' hpage' (hb.victim_ne hvictim hh hheld)).trans hcopy)
  | @written p h' page' store hh' hpage' =>
    refine (em (h.page = p)).symm.imp (fun hne => ?_) fun heq => ?_
    · exact (hb.copy?_setPage hh' page'.markClean h.page).trans ((if_neg hne).trans hcopy)
    · subst heq
      obtain rfl := Option.some.inj (hh.symm.trans hh')
      obtain rfl := Option.some.inj (hpage.symm.trans hpage')
      exact (hb.copy?_setPage hh page.markClean h.page).trans (if_pos rfl)
  | @changed h' page' page'' hpage' hid =>
    have hne : e.cache.handle? h.page ≠ some h' := by
      intro heq
      obtain rfl := Option.some.inj (hh.symm.trans heq)
      exact hother rfl
    exact Or.inl ((hb.toSound.copy?_setPage_of_ne (Cache.pageOf?_of_page? hpage' hid) hne page'').trans hcopy)
  | appended => exact Or.inl hcopy

/-! ### Evictions -/

theorem PoolStep.catalog (h : PoolStep e deed e') : e'.catalog = e.catalog := by
  cases h with
  | other hcatalog => exact hcatalog
  | _ => rfl

theorem PoolSteps.catalog (h : PoolSteps may e log wanted e') : e'.catalog = e.catalog :=
  h.of_step (P := fun _ e' => e'.catalog = e.catalog) rfl fun hbefore hstep _ => hstep.catalog.trans hbefore

theorem PoolSteps.minds (h : PoolSteps may e log wanted e') (hb : e.cache.Bounded) :
    e'.cache.Bounded ∧ e.cache.Minds e'.cache :=
  h.of_step (P := fun _ e' => e'.cache.Bounded ∧ e.cache.Minds e'.cache) ⟨hb, .refl _⟩
    fun ⟨hbounded, hminds⟩ hstep _ => ⟨hstep.bounded hbounded, hminds.trans (hstep.minds hbounded)⟩

theorem PoolSteps.bounded (h : PoolSteps may e log wanted e') (hb : e.cache.Bounded) : e'.cache.Bounded :=
  (h.minds hb).1

theorem Deed.log_append (deed : Deed) (log log' : List PageId) : deed.log (log' ++ log) = deed.log log' ++ log := by
  cases deed <;> rfl

theorem PoolSteps.follows (h : PoolSteps may e log' wanted e') (hlog : e.cache.recency.Follows log) :
    e'.cache.recency.Follows (log' ++ log) :=
  h.of_step (P := fun log' e' => e'.cache.recency.Follows (log' ++ log)) hlog
    fun hbefore hstep _ => Deed.log_append .. ▸ hstep.follows hbefore

theorem PoolSteps.pinned (hsteps : PoolSteps may e log wanted e') (hb : e.cache.Bounded)
    (hh : e.cache.handle? h.page = some h) (hheld : 0 < e.cache.holders h.object) :
    e'.cache.handle? h.page = some h := by
  have hall := hsteps.of_step
    (P := fun _ e' => (e'.cache.Bounded ∧ e.cache.Minds e'.cache) ∧ e'.cache.handle? h.page = some h)
    ⟨⟨hb, .refl _⟩, hh⟩ fun ⟨⟨hbounded, hminds⟩, hcached⟩ hstep _ =>
      ⟨⟨hstep.bounded hbounded, hminds.trans (hstep.minds hbounded)⟩,
        hstep.pinned hbounded hcached (by rwa [hminds.holders])⟩
  exact hall.2

theorem PoolSteps.shows {page : HeapPage} (hsteps : PoolSteps may e log wanted e') (hb : e.cache.Bounded)
    (hh : e.cache.handle? h.page = some h) (hheld : 0 < e.cache.holders h.object)
    (hpage : e.cache.page? h = some page) (hmay : ¬ may (.change h)) :
    e'.cache.page? h = some page ∨ e'.cache.page? h = some page.markClean := by
  have hall := hsteps.of_step
    (P := fun _ e' => (e'.cache.Bounded ∧ e.cache.Minds e'.cache) ∧ e'.cache.handle? h.page = some h ∧
      (e'.cache.page? h = some page ∨ e'.cache.page? h = some page.markClean))
    ⟨⟨hb, .refl _⟩, hh, Or.inl hpage⟩ fun ⟨⟨hbounded, hminds⟩, hcached, hshows⟩ hstep hwork => by
      have hheld' := hheld
      rw [← hminds.holders] at hheld'
      refine ⟨⟨hstep.bounded hbounded, hminds.trans (hstep.minds hbounded)⟩,
        hstep.pinned hbounded hcached hheld', ?_⟩
      have hother : _ ≠ Deed.work (.change h) := fun heq => hmay (hwork _ heq)
      rcases hshows with hshows | hshows
      · exact hstep.shows hbounded hcached hheld' hshows hother
      · exact Or.inr ((or_self_iff ..).1 (hstep.shows hbounded hcached hheld' hshows hother))
  exact hall.2.2

end Engine

end HeapStore
