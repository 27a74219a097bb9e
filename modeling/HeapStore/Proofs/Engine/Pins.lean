import HeapStore.Proofs.Engine.OnDisk
import HeapStore.Proofs.Engine.Runs
import HeapStore.Proofs.Engine.Sessions

/-!
# One copy of a held page

As long as a caller holds an object of a page, the page is not evicted, and the object is the cached copy of the page;
so there is no other object that a caller could hold or be given for it (`Session.OneCopy`). What is done to its page
is there for all who read the page or write it to its file, and after a flush the disk has it (`Engine.Flushed`). This
holds of every session in which no page is discarded, whatever room the pool has and in whichever order callers take
objects and drop them (`Session.one_copy`).

The reason is that the pool gives up only pages that nobody holds (`Engine.PoolSteps.pinned`), and that all objects
come from the cache (`Call.Course.given`).
-/

namespace HeapStore

open Engine

/-- What a call leaves in the hands of callers was there before, or was given by the call. -/
theorem Call.mem_kept {c : Call} {reply : Reply} {kept : List Handle} {h : Handle} (hmem : h ∈ c.kept reply kept) :
    h ∈ kept ∨ reply.given? = some h := by
  unfold Call.kept at hmem
  split at hmem
  · next h' _ htaken =>
    rcases List.mem_cons.1 hmem with rfl | hbefore
    · exact Or.inr (given_of_taken htaken)
    · exact Or.inl hbefore
  · exact Or.inl (List.mem_of_mem_erase hmem)
  · exact Or.inl hmem

namespace Session

variable {s : Session} {ev : Event}

/-- Every object that is held is the cached copy of its page. -/
def Pinned (s : Session) : Prop := ∀ h ∈ s.kept, s.engine.cache.handle? h.page = some h

theorem Pinned.during (hp : s.Pinned) (hs : s.engine.cache.HeldBy s.kept) {h : Handle} (hmem : h ∈ s.kept)
    {may : Work → Prop} {log : List PageId} {wanted : Option PageId} {e : Engine}
    (hsteps : PoolSteps may s.engine log wanted e) :
    e.cache.handle? h.page = some h := hsteps.pinned hs.toBounded (hp h hmem) (hs.holders_pos hmem)

/-- The object that a call gives is cached after it, like those that are held. -/
theorem Pinned.after_call (hp : s.Pinned) (hs : s.engine.cache.HeldBy s.kept) (c : Call) :
    (∀ h ∈ s.kept, (c.after s.engine).cache.handle? h.page = some h) ∧
      ∀ h, (c.reply s.engine).given? = some h → (c.after s.engine).cache.handle? h.page = some h := by
  obtain ⟨log, wanted, e, hsteps, -, hgiven, hclosing⟩ := Call.settles_course hs.toBounded c
  have hclose : ∀ q, (c.after s.engine).cache.handle? q = e.cache.handle? q := fun q => by
    rw [show (c.after s.engine).cache = _ from congrArg Engine.cache hclosing, Call.handle?_close]
  exact ⟨fun h hmem => (hclose _).trans (hp.during hs hmem hsteps), fun h hh => (hclose _).trans (hgiven h hh)⟩

theorem Pinned.after (hp : s.Pinned) (hs : s.engine.cache.HeldBy s.kept) (hev : ∀ p, ev ≠ .discard p) :
    (s.after ev).Pinned := by
  intro h hmem
  cases ev with
  | call c =>
    obtain ⟨hheld, hgiven⟩ := hp.after_call hs c
    exact (Call.mem_kept hmem).elim (hheld h) (hgiven h)
  | discard p => exact absurd rfl (hev p)
  | again h' =>
    by_cases hheld : h' ∈ s.kept
    · rw [after_again hheld] at hmem ⊢
      rcases List.mem_cons.1 hmem with rfl | hbefore
      · exact hp h hheld
      · exact hp h hbefore
    · rw [after_again_of_not hheld] at hmem ⊢
      exact hp h hmem
  | change h' page =>
    by_cases hheld : h' ∈ s.kept ∧ page.id = h'.page
    · rw [after_change hheld.1 hheld.2] at hmem ⊢
      exact hp h hmem
    · rw [after_change_of_not hheld] at hmem ⊢
      exact hp h hmem
  | elsewhere e => exact hp h hmem

theorem Pinned.run (hp : s.Pinned) (hs : s.engine.cache.HeldBy s.kept) {events : List Event}
    (hkeeps : ∀ p, .discard p ∉ events) : (s.run events).Pinned := by
  induction events generalizing s with
  | nil => exact hp
  | cons ev rest ih =>
    obtain ⟨_, _, _, -, hafter⟩ := exists_course hs ev
    refine ih (hp.after hs fun p heq => hkeeps p (heq ▸ List.mem_cons_self)) hafter fun p hmem => ?_
    exact hkeeps p (List.mem_cons_of_mem _ hmem)

/-! ### What is seen of a held object -/

section

variable {h h' : Handle} {page : HeapPage}

theorem Pinned.same (hp : s.Pinned) (hmem : h ∈ s.kept) (hmem' : h' ∈ s.kept) (hpage : h'.page = h.page) : h' = h :=
  Option.some.inj ((hp h' hmem').symm.trans (hpage ▸ hp h hmem))

theorem Pinned.given (hp : s.Pinned) (hs : s.engine.cache.HeldBy s.kept) {c : Call}
    (hgiven : (c.reply s.engine).given? = some h) : (c.after s.engine).cache.handle? h.page = some h ∧
      ∀ h' ∈ s.kept, h'.page = h.page → h' = h := by
  obtain ⟨hheld, hcached⟩ := hp.after_call hs c
  refine ⟨hcached h hgiven, fun h' hmem hpage => ?_⟩
  exact Option.some.inj ((hheld h' hmem).symm.trans (hpage ▸ hcached h hgiven))

theorem Pinned.changed (hp : s.Pinned) (hs : s.engine.cache.HeldBy s.kept) (hmem : h ∈ s.kept)
    (hid : page.id = h.page) : (s.after (.change h page)).kept = s.kept ∧
      ∀ h' ∈ s.kept, h'.page = h.page → (s.after (.change h page)).engine.cache.page? h' = some page := by
  rw [after_change hmem hid]
  refine ⟨rfl, fun h' hmem' hpage => ?_⟩
  rw [hp.same hmem hmem' hpage]
  exact hs.page?_setPage (hp h hmem) page

/-- What a held object shows stays until somebody changes this object, though it may be written in between. -/
theorem Pinned.stays (hp : s.Pinned) (hs : s.engine.cache.HeldBy s.kept) (hmem : h ∈ s.kept)
    (hpage : s.engine.cache.page? h = some page) (hev : ∀ p, ev ≠ .discard p) (hother : h ∉ s.changed ev) :
    (s.after ev).engine.cache.page? h = some page ∨ (s.after ev).engine.cache.page? h = some page.markClean := by
  obtain ⟨log, wanted, e, ⟨hsteps, -, hclosing⟩, -⟩ := exists_course hs ev
  have hshows := hsteps.shows hs.toBounded (hp h hmem) (hs.holders_pos hmem) hpage (not_does_change hother)
  have hcached := hp.during hs hmem hsteps
  have hsound := (hsteps.bounded hs.toBounded).toSound
  have hclose : (s.after ev).engine.cache.page? h = e.cache.page? h := by
    rw [show (s.after ev).engine.cache = _ from congrArg Engine.cache hclosing]
    unfold close
    cases ev with
    | call c => exact Call.page?_close hsound hcached c _
    | discard p => exact absurd rfl (hev p)
    | again h' =>
      dsimp only
      split
      · exact Cache.page?_hold h' h
      · rfl
    | change h' page' => rfl
    | elsewhere e' => rfl
  rwa [hclose]

theorem Pinned.read (hp : s.Pinned) (hmem : h ∈ s.kept) (hpage : s.engine.cache.page? h = some page) :
    s.engine.content h.page = .ok page.rows ∧ ∀ txn access, Ends (Op.getPage txn h.page access) s.engine
      (fun h' e' => h' = h ∧ e'.cache.page? h = some page) fun cause _ => cause = .transactionAborted txn h.page := by
  refine ⟨content_of_copy ((Cache.copy?_eq_of_handle? (hp h hmem)).trans hpage), fun txn access => ?_⟩
  refine (Op.ends_getPage_of_cached (hp h hmem) txn access).mono ?_ fun _ _ hrefused => hrefused.1
  rintro h' e' ⟨rfl, locks, rfl⟩
  exact ⟨rfl, hpage⟩

theorem Pinned.flushed (hp : s.Pinned) (hs : s.engine.cache.HeldBy s.kept) (hmem : h ∈ s.kept)
    (hpage : s.engine.cache.page? h = some page) :
    Ends (Op.flushPage h.page) s.engine
      (fun _ e' => page.isDirty = true → Flushed (·.id = h.page) h page s.engine e') (fun _ _ => True) ∧
    Ends Op.flushAll s.engine
      (fun _ e' => page.isDirty = true → Flushed (·.isDirty = true) h page s.engine e') (fun _ _ => True) ∧
    ∀ txn, Ends (Op.flushTxn txn) s.engine
      (fun _ e' => page.dirtiedBy = some txn → Flushed (·.dirtiedBy = some txn) h page s.engine e') (fun _ _ => True) ∧
    Ends (Op.commit txn) s.engine
      (fun _ e' => page.dirtiedBy = some txn → Flushed (·.dirtiedBy = some txn) h page s.engine e')
      fun _ _ => True := by
  have hb := hs.toBounded
  have hcached := hp h hmem
  refine ⟨?_, ?_, fun txn => ⟨?_, ?_⟩⟩
  · exact (Op.ends_flushPage_saves hb h.page).mono
      (fun _ _ h' hdue => (h'.2 h page hcached hpage hdue).flushed hb) fun _ _ _ => trivial
  · exact (Op.ends_flushAll_saves hb).mono
      (fun _ _ h' hdue => (h'.2 h page hcached hpage hdue).flushed hb) fun _ _ _ => trivial
  · exact (Op.ends_flushTxn_saves hb txn).mono
      (fun _ _ h' hdue => (h'.2 h page hcached hpage hdue).flushed hb) fun _ _ _ => trivial
  · exact (Op.ends_commit_saves hb txn).mono
      (fun _ _ h' hdue => (h'.2 h page hcached hpage hdue).flushed hb) fun _ _ _ => trivial

end

/-- What callers who hold objects can rely on. -/
structure OneCopy (s : Session) : Prop where
  cached : s.Pinned
  /-- A held object is the cached copy of its page at any time in the course of what happens next. -/
  pinned : ∀ h ∈ s.kept, ∀ {may log wanted e}, PoolSteps may s.engine log wanted e →
    e.cache.handle? h.page = some h
  /-- Callers hold only one object of a page. -/
  same : ∀ h ∈ s.kept, ∀ h' ∈ s.kept, h'.page = h.page → h' = h
  /-- An object that a call gives is the cached copy of its page, and the object that is held if there is one. -/
  given : ∀ (c : Call) h, (c.reply s.engine).given? = some h → (c.after s.engine).cache.handle? h.page = some h ∧
    ∀ h' ∈ s.kept, h'.page = h.page → h' = h
  /-- A change that is made through one handle shows through all of them. -/
  changed : ∀ h ∈ s.kept, ∀ page : HeapPage, page.id = h.page →
    (s.after (.change h page)).kept = s.kept ∧
      ∀ h' ∈ s.kept, h'.page = h.page → (s.after (.change h page)).engine.cache.page? h' = some page
  /-- What a held object shows stays until it is changed again, though it may be marked as written in between. -/
  stays : ∀ h ∈ s.kept, ∀ page, s.engine.cache.page? h = some page → ∀ ev, (∀ p, ev ≠ .discard p) →
    h ∉ s.changed ev → (s.after ev).engine.cache.page? h = some page ∨
      (s.after ev).engine.cache.page? h = some page.markClean
  /-- What the object shows is what the page contains; whoever asks for the page is given the object as it is, unless
  the lock is refused. -/
  read : ∀ h ∈ s.kept, ∀ page, s.engine.cache.page? h = some page → s.engine.content h.page = .ok page.rows ∧
    ∀ txn access, Ends (Op.getPage txn h.page access) s.engine
      (fun h' e' => h' = h ∧ e'.cache.page? h = some page) fun cause _ => cause = .transactionAborted txn h.page
  /-- The page that the object shows is the one that a flush writes to the file, if it is due. -/
  flushed : ∀ h ∈ s.kept, ∀ page, s.engine.cache.page? h = some page →
    Ends (Op.flushPage h.page) s.engine
      (fun _ e' => page.isDirty = true → Flushed (·.id = h.page) h page s.engine e') (fun _ _ => True) ∧
    Ends Op.flushAll s.engine
      (fun _ e' => page.isDirty = true → Flushed (·.isDirty = true) h page s.engine e') (fun _ _ => True) ∧
    ∀ txn, Ends (Op.flushTxn txn) s.engine
      (fun _ e' => page.dirtiedBy = some txn → Flushed (·.dirtiedBy = some txn) h page s.engine e') (fun _ _ => True) ∧
    Ends (Op.commit txn) s.engine
      (fun _ e' => page.dirtiedBy = some txn → Flushed (·.dirtiedBy = some txn) h page s.engine e')
      fun _ _ => True

theorem Pinned.oneCopy (hp : s.Pinned) (hs : s.engine.cache.HeldBy s.kept) : s.OneCopy where
  cached := hp
  pinned _ hmem _ _ _ _ hsteps := hp.during hs hmem hsteps
  same _ hmem _ hmem' hpage := hp.same hmem hmem' hpage
  given _ _ hgiven := hp.given hs hgiven
  changed _ hmem _ hid := hp.changed hs hmem hid
  stays _ hmem _ hpage _ hev hother := hp.stays hs hmem hpage hev hother
  read _ hmem _ hpage := hp.read hmem hpage
  flushed _ hmem _ hpage := hp.flushed hs hmem hpage

/-- In a session without discards there is one copy of each page that callers hold an object of, and it is the object
that they hold. -/
theorem one_copy (e : Engine) (capacity : Nat) {events : List Event} (hkeeps : ∀ p, .discard p ∉ events) :
    ((start e capacity).run events).OneCopy := by
  have hs : (start e capacity).engine.cache.HeldBy (start e capacity).kept := Cache.heldBy_empty capacity
  have hp : (start e capacity).Pinned := fun h hmem => absurd hmem List.not_mem_nil
  exact (hp.run hs hkeeps).oneCopy (heldBy_run hs events)

end Session

namespace Sample

/-- In a pool of one page its page is held twice; the second insert finds no place for the page that it appends. -/
def heldTwice : List Session.Event :=
  [.call (.insert 1 0 apple true), .call (.insert 1 0 pear true), .call (.getPage 1 ⟨0, 0⟩ .readOnly true)]

end Sample

set_option maxRecDepth 50000 in
theorem one_copy_of_heldTwice :
    ((Session.start Sample.noWord 1).run Sample.heldTwice).OneCopy ∧
      ((Session.start Sample.noWord 1).run Sample.heldTwice).kept = [⟨⟨0, 0⟩, 0⟩, ⟨⟨0, 0⟩, 0⟩] :=
  ⟨Session.one_copy Sample.noWord 1 (by simp [Sample.heldTwice]), by decide +kernel⟩

end HeapStore
