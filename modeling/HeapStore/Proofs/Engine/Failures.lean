import HeapStore.Proofs.Engine.FirstFit
import HeapStore.Proofs.Engine.Sessions
import HeapStore.Proofs.Lock.Waiting

/-!
# What calls that fail leave behind

A call for a page does part of its work before it can fail: it takes the lock, gives up a page to make room and
reads the file. `Engine.Pooled.getPage_contained` says what is left of this.

* **Locks** (`LockTable.Restored`). The lock that was taken on the way is given back, but one that was held before
  is kept, in the mode that it was raised to. The request is in no queue.
* **The cache** (`Engine.Loses`). At most one page is gone. Nobody held it, and its file has it.
* **Contents** stay as they are, and nothing is newly marked as changed.

An insert or a delete that fails leaves all tuples alone (`Engine.Pooled.failed_changes`); of its work only locks and at
most one page without tuples are left.
-/

namespace HeapStore

/-! ### Locks that are given back -/

namespace LockTable

variable {t t' : LockTable} {p q : PageId} {txn u : TxnId} {mode : LockMode}

/-- The same locks are held as before, but that the transaction's shared lock on the page may have become exclusive. No
request has joined a queue; at most requests of the transaction for the page have left it. -/
structure Restored (txn : TxnId) (p : PageId) (t t' : LockTable) : Prop where
  modes : ∀ q u, t'.mode? q u = t.mode? q u ∨
    q = p ∧ u = txn ∧ t.mode? q u = some .shared ∧ t'.mode? q u = some .exclusive
  queues : ∀ q, (t'.locks q).waiters = (t.locks q).waiters ∨
    q = p ∧ (t'.locks q).waiters = (t.locks q).waiters.filter (·.txn ≠ txn)

theorem Restored.holds (h : Restored txn p t t') (q : PageId) (u : TxnId) : t'.holds q u = t.holds q u := by
  unfold LockTable.holds
  obtain hsame | ⟨-, -, hbefore, hafter⟩ := h.modes q u
  · rw [hsame]
  · rw [hbefore, hafter]
    rfl

theorem mode?_grant_congr (h : ∀ q u, t'.mode? q u = t.mode? q u) (q : PageId) (u : TxnId) :
    (t'.grant p txn mode).mode? q u = (t.grant p txn mode).mode? q u := by
  have hgranted : (t'.locks p).granted txn mode = (t.locks p).granted txn mode := by
    have hown : (t'.locks p).holders[txn]? = (t.locks p).holders[txn]? := h p txn
    rw [PageLocks.granted, PageLocks.granted, hown]
  rw [mode?_grant, mode?_grant, hgranted, h]

theorem mode?_acquireAlone (q : PageId) (u : TxnId) :
    (t.acquireAlone p txn mode).2.mode? q u =
      (if (t.acquireAlone p txn mode).1 then t.grant p txn mode else t).mode? q u := by
  unfold acquireAlone atDeadline
  split
  · rfl
  · split
    · rw [mode?_withdraw_grant, mode?_grant_congr mode?_enqueue]
      rfl
    · exact (mode?_withdraw q u).trans (mode?_enqueue q u)

theorem waiters_acquireAlone (q : PageId) :
    ((t.acquireAlone p txn mode).2.locks q).waiters = (t.locks q).waiters ∨
      q = p ∧ ((t.acquireAlone p txn mode).2.locks q).waiters = (t.locks q).waiters.filter (·.txn ≠ txn) := by
  unfold acquireAlone
  split
  · exact Or.inl (waiters_grant q)
  · rw [waiters_atDeadline]
    split
    · next hq =>
      subst hq
      refine Or.inr ⟨rfl, ?_⟩
      rw [locks_enqueue, if_pos rfl, PageLocks.dequeue_enqueue, PageLocks.dequeue]
    · next hq => exact Or.inl (by rw [locks_enqueue, if_neg hq])

theorem restored_of_refused (h : (t.acquireAlone p txn mode).1 = false) :
    Restored txn p t (t.acquireAlone p txn mode).2 where
  modes q u := Or.inl (by rw [mode?_acquireAlone, h]; rfl)
  queues := waiters_acquireAlone

theorem mode?_grant_of_held (hheld : t.holds p txn = true) (q : PageId) (u : TxnId) :
    (t.grant p txn mode).mode? q u = t.mode? q u ∨
      q = p ∧ u = txn ∧ t.mode? q u = some .shared ∧ (t.grant p txn mode).mode? q u = some .exclusive := by
  rw [mode?_grant]
  split
  · next hown =>
    obtain ⟨rfl, rfl⟩ := hown
    obtain ⟨held, hmode⟩ := Option.isSome_iff_exists.1 hheld
    have hgranted : (t.locks q).granted u mode = held.join mode := by
      have hholders : (t.locks q).holders[u]? = some held := hmode
      rw [PageLocks.granted, hholders, Option.map_some, Option.getD_some]
    rw [hgranted, hmode]
    cases held <;> cases mode <;> simp [LockMode.join]
  · exact Or.inl rfl

theorem restored_of_held (hheld : t.holds p txn = true) : Restored txn p t (t.acquireAlone p txn mode).2 where
  modes q u := by
    rw [mode?_acquireAlone]
    split
    · exact mode?_grant_of_held hheld q u
    · exact Or.inl rfl
  queues := waiters_acquireAlone

theorem restored_of_released (hfree : t.holds p txn = false) :
    Restored txn p t ((t.acquireAlone p txn mode).2.release p txn).2 where
  modes q u := by
    have hnone : t.mode? p txn = none := by simpa [LockTable.holds] using hfree
    refine Or.inl ?_
    rw [mode?_release]
    split
    · next hown => rw [hown.1, hown.2, hnone]
    · next hother =>
      rw [mode?_acquireAlone]
      split
      · rw [mode?_grant, if_neg hother]
      · rfl
  queues q := by
    rw [waiters_release]
    exact waiters_acquireAlone q

end LockTable

namespace Op

open Engine LockTable

variable {e : Engine}

theorem ends_getPage_restored (he : e.Consistent) (txn : TxnId) (p : PageId) (access : Access) :
    Ends (getPage txn p access) e (fun _ _ => True) fun _ e' => Restored txn p e.locks e'.locks := by
  unfold getPage holdsLock lock
  simp only [ends_bind, ends_get, ends_pure, ends_tryCatch, ends_modify]
  cases hgranted : (e.locks.acquireAlone p txn access.lockMode).1 with
  | false => exact restored_of_refused hgranted
  | true =>
    refine (ends_fetch (he.keeps_locks (e.locks.acquireAlone p txn access.lockMode).2).consistent p).mono
      (fun _ _ _ => trivial) ?_
    rintro cause e' ⟨-, hlocks⟩
    cases hheld : e.locks.holds p txn with
    | true =>
      show Restored txn p e.locks e'.locks
      rw [hlocks]
      exact restored_of_held hheld
    | false =>
      show Restored txn p e.locks (e'.locks.release p txn).2
      rw [hlocks]
      exact restored_of_released hheld

end Op

namespace Engine

variable {e e' : Engine} {txn : TxnId} {p v : PageId} {log : List PageId} {wanted : Option PageId}

/-! ### A page that was given up in vain -/

/-- One page is cached no more, which nobody held. -/
structure Loses (v : PageId) (e e' : Engine) : Prop where
  unheld : ∃ h, e.cache.handle? v = some h ∧ e.cache.holders h.object = 0
  handles : ∀ q, e'.cache.handle? q = if q = v then none else e.cache.handle? q

/-- Steps that access no page load none, and they make room once at most. -/
theorem PoolSteps.loses_of_no_access (h : PoolSteps Idly e log wanted e') (hb : e.cache.Bounded) (hlog : log = []) :
    match wanted with
    | none => ∀ q, e'.cache.handle? q = e.cache.handle? q
    | some _ => ∃ v, Loses v e e' := by
  induction h with
  | refl => exact fun _ => rfl
  | @other log wanted e₁ e₂ hsteps hstep ih =>
    have hsame : ∀ q, e₂.cache.handle? q = e₁.cache.handle? q := by
      cases hstep with
      | other _ _ hcache => exact fun q => by rw [hcache]
    cases wanted with
    | none => exact fun q => (hsame q).trans (ih hlog q)
    | some q =>
      obtain ⟨v, hunheld, hhandles⟩ := ih hlog
      exact ⟨v, hunheld, fun q => (hsame q).trans (hhandles q)⟩
  | work _ _ hmay => exact hmay.elim
  | @room log q e₁ e₂ hsteps hstep ih =>
    obtain ⟨hbounded, hminds⟩ := hsteps.minds hb
    cases hstep with
    | @evicted _ v h page store hmissing hfull hvictim hh hpage hstore =>
      obtain ⟨h', hh', hunheld⟩ := hbounded.victim?_eq_some hvictim
      have hp : h.page = v := (Cache.handle?_eq_some_iff.1 hh).2
      refine ⟨v, ⟨h', (ih hlog v).symm.trans hh', (hminds.holders _).symm.trans hunheld⟩, fun q => ?_⟩
      rw [Cache.handle?_giveUp, hp, ih hlog q]
  | access => simp at hlog

/-- The rows of a page that is lost without a change of contents are on the disk. -/
theorem Loses.exists_stored (h : Loses v e e') (hkeeps : e.Keeps e') (he : e.Consistent) :
    ∃ page, e.cache.copy? v = some page ∧ (e'.stored v).map (·.rows) = .ok page.rows := by
  obtain ⟨handle, hh, -⟩ := h.unheld
  obtain ⟨page, -, hcopy, -⟩ := he.sound.exists_copy hh
  have hgone : e'.cache.handle? v = none := by rw [h.handles, if_pos rfl]
  refine ⟨page, hcopy, ?_⟩
  rw [← content_of_not_cached (Cache.copy?_eq_none hgone), hkeeps.content, content_of_copy hcopy]

/-! ### Engines whose pages are only read outside of the pool -/

/-- The engines that there can be while callers only read the objects that they hold. They may also hold an object
once more. -/
abbrev Pooled : Engine → Prop := Run Event.Allowed (· = .again)

theorem Pooled.consistent (h : Pooled e) : e.Consistent := Run.consistent (fun _ _ => id) h

theorem Pooled.exists_heldBy (h : Pooled e) : ∃ kept, e.cache.HeldBy kept := by
  induction h with
  | start disk settings => exact ⟨[], Cache.heldBy_empty _⟩
  | @event e ev h hev ih =>
    obtain ⟨kept, hkept⟩ := ih
    have he : e.Consistent := Pooled.consistent h
    cases ev with
    | call c =>
      obtain ⟨-, -, -, -, hafter⟩ := Session.exists_course (s := ⟨e, kept⟩) hkept (.call c)
      exact ⟨_, hafter⟩
    | register name path schema =>
      have hcache : ((Event.register name path schema).after e).cache = e.cache :=
        ((Op.ends_addTable he name schema hev).mono (fun _ _ h => h.2.1) fun _ _ h => by rw [h]).always
      exact ⟨kept, hcache ▸ hkept⟩
    | discard p =>
      obtain ⟨-, -, -, -, hafter⟩ := Session.exists_course (s := ⟨e, kept⟩) hkept (.discard p)
      exact ⟨_, hafter⟩
    | transact locks nextTxn => exact ⟨kept, hkept⟩
  | again _ h _ hheld ih =>
    obtain ⟨kept, hkept⟩ := ih
    have hmem : h ∈ kept := hkept.isHeld_iff.1 hheld
    exact ⟨h :: kept, hkept.hold (hkept.ids h hmem)⟩
  | edit huse => exact nomatch huse

theorem Pooled.bounded (h : Pooled e) : e.cache.Bounded := by
  obtain ⟨kept, hkept⟩ := h.exists_heldBy
  exact hkept.toBounded

/-! ### A call for a page that fails -/

/-- What a call for a page may have done when it fails. -/
structure Contained (txn : TxnId) (p : PageId) (e e' : Engine) : Prop where
  holds : ∀ q u, e'.locks.holds q u = e.locks.holds q u
  locks : LockTable.Restored txn p e.locks e'.locks
  /-- The same pages are cached, or one less: nobody held it, and its file has what the lost copy showed. -/
  cached : (∀ q, e'.cache.handle? q = e.cache.handle? q) ∨
    ∃ v page, Loses v e e' ∧ e.cache.copy? v = some page ∧ (e'.stored v).map (·.rows) = .ok page.rows
  dirty : ∀ q page, e'.cache.copy? q = some page → page.dirtiedBy ≠ none → e.cache.copy? q = some page
  content : ∀ q, e'.content q = e.content q

/-- **A failing call for a page is contained**, whatever it fails for. -/
theorem Pooled.getPage_contained {access : Access} {cause : StorageError} (h : Pooled e)
    (hfails : (Op.getPage txn p access).run.run e = (.error cause, e')) : Contained txn p e e' := by
  have he := h.consistent
  have hends := ((Op.ends_getPage he txn p access).and (Op.ends_getPage_steps h.bounded txn p access)).and
    (Op.ends_getPage_restored he txn p access)
  unfold Ends at hends
  rw [hfails] at hends
  obtain ⟨⟨hquiet, wanted, hsteps⟩, hrestored⟩ := hends
  refine ⟨hrestored.holds, hrestored, ?_, hquiet.dirty, hquiet.content⟩
  have hcached := hsteps.loses_of_no_access h.bounded rfl
  cases wanted with
  | none => exact Or.inl hcached
  | some q =>
    obtain ⟨v, hloses⟩ := hcached
    obtain ⟨page, hcopy, hstored⟩ := hloses.exists_stored hquiet.toKeeps he
    exact Or.inr ⟨v, page, hloses, hcopy, hstored⟩

/-! ### Inserts and deletes that fail -/

/-- No page is newly marked as changed, and all locks are still held, in the same mode at least. -/
structure Harmless (e e' : Engine) : Prop where
  dirty : ∀ q page, e'.cache.copy? q = some page → page.dirtiedBy ≠ none → e.cache.copy? q = some page
  locks : ∀ q u held, e.locks.mode? q u = some held → ∃ held', e'.locks.mode? q u = some held' ∧ held ≤ held'

/-- The tables have the same pages, with the same tuples, in files of the same lengths. -/
structure SameData (e e' : Engine) : Prop where
  catalog : e'.catalog = e.catalog
  numPages : ∀ t n, e.numPages? t = some n → e'.numPages? t = some n
  content : ∀ q, e'.content q = e.content q
  lengths : e.SameLengths e'

/-- One table, which had `n` pages, has got one page more, without tuples, and only its file is longer now. All else is
the same. -/
structure GotBlank (t : TableId) (n : Nat) (e e' : Engine) : Prop where
  catalog : e'.catalog = e.catalog
  before : e.numPages? t = some n ∧ e.content ⟨t, n⟩ = .error (.pageNotFound ⟨t, n⟩)
  after : e'.numPages? t = some (n + 1) ∧ ∃ slots, e'.content ⟨t, n⟩ = .ok (List.replicate slots none)
  numPages : ∀ t' k, t' ≠ t → e.numPages? t' = some k → e'.numPages? t' = some k
  content : ∀ q, q ≠ ⟨t, n⟩ → e'.content q = e.content q
  lengths : Lengthens ⟨t, n⟩ e e'

variable {table : TableId}

theorem harmless_of_gains (hgains : e.locks.Gains txn e'.locks)
    (hdirty : ∀ q page, e'.cache.copy? q = some page → page.dirtiedBy ≠ none → e.cache.copy? q = some page) :
    Harmless e e' where
  dirty := hdirty
  locks q u held hheld := by
    by_cases hu : u = txn
    · exact hu ▸ hgains.own q held (hu ▸ hheld)
    · exact ⟨held, (hgains.others q u hu).trans hheld, LockMode.le_refl held⟩

theorem Keeps.sameData (h : e.Keeps e') (he : e.Consistent) : SameData e e' :=
  ⟨h.catalog, fun _ _ => h.numPages? he, h.content, h.sameLengths⟩

theorem Extends.gotBlank (h : Extends txn table (e.pages table) p e e') (he : e.Consistent) :
    ∃ n, GotBlank table n e e' := by
  obtain ⟨f, hf, -⟩ := h.next
  have hn : e.numPages? table = some f.numPages := congrArg _ hf
  obtain ⟨rfl, happends⟩ := h.appends he hn
  obtain ⟨g, -, hblank⟩ := h.grows.blank
  rw [HeapPage.rows_blank] at hblank
  exact ⟨f.numPages, h.grows.catalog, ⟨hn, h.grows.missing⟩, ⟨happends.numPages, _, hblank⟩,
    fun t' k ht hk => (h.stays_of_ne he ht hk).numPages, h.grows.content, h.grows.lengths⟩

/-- **Failing inserts and deletes change no tuple**, wherever on their way they fail. -/
theorem Pooled.failed_changes (h : Pooled e) :
    (∀ txn table t stored cause e', (Op.insert txn table t).run e = (⟨stored, .error cause⟩, e') →
      stored = t ∧ Harmless e e' ∧ (SameData e e' ∨ ∃ n, GotBlank table n e e')) ∧
    ∀ txn r cause e', (Op.delete txn r).run.run e = (.error cause, e') → Harmless e e' ∧ SameData e e' := by
  have he := h.consistent
  constructor
  · intro txn table t stored cause e' hfails
    have hsettles := Op.settles_insert he txn table t
    unfold Settles at hsettles
    rw [hfails] at hsettles
    obtain ⟨hsame, hattempted⟩ := hsettles
    obtain ⟨p, hprepared⟩ := hattempted.exists_prepared
    refine ⟨hsame, harmless_of_gains hprepared.locks hprepared.dirty, ?_⟩
    obtain hquiet | ⟨p, hextends⟩ := hattempted
    · exact Or.inl (hquiet.toKeeps.sameData he)
    · exact Or.inr (hextends.gotBlank he)
  · intro txn r cause e' hfails
    have hends := Op.ends_delete he txn r
    unfold Ends at hends
    rw [hfails] at hends
    exact ⟨harmless_of_gains hends.locks hends.dirty, hends.toKeeps.sameData he⟩

end Engine

open Engine

namespace Sample

theorem pooled_oneWord : Pooled oneWord :=
  .event (.call insertApple)
    (.event (.register "words" "words" schema) (.start .blank { poolPages := 1 }) (newPath_start _ _ _)) trivial

/-- Transaction 2 asked for a page past the end of the table. -/
def askedPastEnd : Engine := ((Op.getPage 2 ⟨0, 7⟩ .readWrite).run.run oneWord).2

/-- The only page is held by a caller, and fills the pool. -/
def heldWord : Engine := (Call.getPage 1 ⟨0, 0⟩ .readOnly true).after oneWord

theorem pooled_heldWord : Pooled heldWord := .event (.call (.getPage 1 ⟨0, 0⟩ .readOnly true)) pooled_oneWord trivial

end Sample

set_option maxRecDepth 50000 in
/-- The page of the only tuple has made room, for nothing. It was written before. -/
theorem getPage_contained_past_end :
    (Op.getPage 2 ⟨0, 7⟩ .readWrite).run.run Sample.oneWord = (.error (.pageNotFound ⟨0, 7⟩), Sample.askedPastEnd) ∧
      Contained 2 ⟨0, 7⟩ Sample.oneWord Sample.askedPastEnd ∧
      (Sample.oneWord.cache.isCached ⟨0, 0⟩ = true ∧ Sample.askedPastEnd.cache.isCached ⟨0, 0⟩ = false) ∧
      Sample.askedPastEnd.locks.holds ⟨0, 7⟩ 2 = false := by
  have hfails : (Op.getPage 2 ⟨0, 7⟩ .readWrite).run.run Sample.oneWord =
      (.error (.pageNotFound ⟨0, 7⟩), Sample.askedPastEnd) := Prod.ext (by decide +kernel) rfl
  exact ⟨hfails, Sample.pooled_oneWord.getPage_contained hfails, by decide +kernel, by decide +kernel⟩

set_option maxRecDepth 50000 in
/-- There is no place for the page that the insert appends, and no lock for the delete of another transaction. -/
theorem failed_changes_of_held_word :
    (∃ stored e', (Op.insert 1 0 Sample.pear).run Sample.heldWord = (⟨stored, .error .bufferPoolFull⟩, e') ∧
      stored = Sample.pear ∧ e'.numPages? 0 = some 2 ∧ e'.content ⟨0, 0⟩ = Sample.heldWord.content ⟨0, 0⟩) ∧
    ∃ e', (Op.delete 2 (some ⟨⟨0, 0⟩, 0⟩)).run.run Sample.heldWord = (.error (.transactionAborted 2 ⟨0, 0⟩), e') ∧
      e'.content ⟨0, 0⟩ = Sample.heldWord.content ⟨0, 0⟩ := by
  obtain ⟨hinserts, hdeletes⟩ := Sample.pooled_heldWord.failed_changes
  constructor
  · have hfails : (Op.insert 1 0 Sample.pear).run Sample.heldWord =
        (⟨((Op.insert 1 0 Sample.pear).run Sample.heldWord).1.tuple, .error .bufferPoolFull⟩,
          ((Op.insert 1 0 Sample.pear).run Sample.heldWord).2) :=
      Prod.ext (congrArg (Op.Insertion.mk _) (by decide +kernel)) rfl
    have hgrown : ((Op.insert 1 0 Sample.pear).run Sample.heldWord).2.numPages? 0 = some 2 := by decide +kernel
    obtain ⟨hsame, -, hdata⟩ := hinserts _ _ _ _ _ _ hfails
    refine ⟨_, _, hfails, hsame, hgrown, ?_⟩
    obtain hnone | ⟨n, hblank⟩ := hdata
    · exact hnone.content _
    · have hn : n = 1 := Option.some.inj (hblank.before.1.symm.trans (by decide +kernel))
      exact hblank.content _ (by rw [hn]; decide)
  · have hfails : (Op.delete 2 (some ⟨⟨0, 0⟩, 0⟩)).run.run Sample.heldWord =
        (.error (.transactionAborted 2 ⟨0, 0⟩), ((Op.delete 2 (some ⟨⟨0, 0⟩, 0⟩)).run.run Sample.heldWord).2) :=
      Prod.ext (by decide +kernel) rfl
    exact ⟨_, hfails, (hdeletes _ _ _ _ hfails).2.content _⟩

end HeapStore
