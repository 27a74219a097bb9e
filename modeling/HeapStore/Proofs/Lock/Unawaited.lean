import HeapStore.Proofs.Lock.Index
import HeapStore.Proofs.Lock.Queue

/-!
# Locks that nobody waits for

While no request waits, a lock is granted at once or not at all (`LockTable.Unawaited.acquireAlone_eq`). In a coherent
table a grant of what the transaction has already changes nothing (`LockTable.Coherent.grant_eq_self`), and neither does
a lock that is taken and given back (`LockTable.Coherent.release_grant`); who goes on to write to a page that it has
only looked at ends up as if it had asked for the page once (`LockTable.Coherent.grant_exclusive_of_shared`).
-/

namespace HeapStore

namespace PageLocks

variable {l : PageLocks} {txn : TxnId} {mode : LockMode}

theorem granted_exclusive : l.granted txn .exclusive = .exclusive := mode_le_granted rfl

theorem granted_of_none (h : l.holders[txn]? = none) : l.granted txn mode = mode := by
  rw [granted, h]
  rfl

theorem grant_exclusive_of_shared : (l.grant txn .shared).grant txn .exclusive = l.grant txn .exclusive := by
  refine ext_holders (fun u => ?_) rfl
  rw [holders_grant, holders_grant, holders_grant, granted_exclusive, granted_exclusive]
  split
  · rfl
  · rfl

theorem release_grant (h : l.holders[txn]? = none) : (l.grant txn mode).release txn = l := by
  refine ext_holders (fun u => ?_) rfl
  rw [holders_release, holders_grant]
  by_cases hu : u = txn
  · rw [if_pos hu, hu, h]
  · rw [if_neg hu, if_neg hu]

end PageLocks

namespace LockTable

variable {t : LockTable} {p q : PageId} {txn u : TxnId} {mode : LockMode} {pages : List PageId}

/-- No request waits for any page. -/
def Unawaited (t : LockTable) : Prop := ∀ p, (t.locks p).waiters = []

theorem unawaited_of_isEmpty (h : t.pages.isEmpty = true) : t.Unawaited := fun p => by
  rw [locks, Std.ExtTreeMap.isEmpty_iff.1 h, Std.ExtTreeMap.getD_empty]

theorem Unawaited.grant (h : t.Unawaited) (p : PageId) (txn : TxnId) (mode : LockMode) :
    (t.grant p txn mode).Unawaited := fun q => (waiters_grant q).trans (h q)

/-- Where nobody waits, the end of a request's wait finds it as it was at the start. -/
theorem Unawaited.acquireAlone_eq (h : t.Unawaited) (hgranted : (t.acquireAlone p txn mode).1 = true) :
    (t.acquireAlone p txn mode).2 = t.grant p txn mode := by
  unfold acquireAlone at hgranted ⊢
  split
  · rfl
  · next hrefused =>
    have hnobody : ¬ (t.locks p).Queued txn := by simp [PageLocks.Queued, h p]
    have hlate : ((t.locks p).enqueue txn mode).grantable txn mode = false := by
      by_contra hlate
      obtain ⟨r, hr, -⟩ := PageLocks.exists_grantable_ahead hnobody (Bool.eq_false_iff.2 hrefused)
        (Bool.not_eq_false _ ▸ hlate)
      rw [h p] at hr
      simp at hr
    rw [if_neg hrefused, atDeadline, grantable, enqueue, locks_setLocks, if_pos rfl, hlate] at hgranted
    simp at hgranted

theorem Coherent.acquireAlone (h : t.Coherent) (p : PageId) (txn : TxnId) (mode : LockMode) :
    (t.acquireAlone p txn mode).2.Coherent := by
  unfold LockTable.acquireAlone atDeadline
  split
  · exact h.grant p txn mode
  · split
    · exact ((h.enqueue p txn mode).withdraw p txn).grant p txn mode
    · exact (h.enqueue p txn mode).withdraw p txn

/-- A table that differs in the locks of one page only does not differ if these are the same. -/
theorem Coherent.eq_of_locks (h : t.Coherent) {t' : LockTable} (h' : t'.Coherent) {l : PageLocks}
    (hlocks : ∀ q, t'.locks q = if q = p then l else t.locks q) (hsame : l = t.locks p) : t' = t := by
  refine h'.ext h fun q => ?_
  rw [hlocks]
  split
  · next heq => rw [heq, hsame]
  · rfl

/-- What the transaction has already is not changed by a grant. -/
theorem Coherent.grant_eq_self (h : t.Coherent) (hhas : (t.locks p).Has txn mode) : t.grant p txn mode = t :=
  h.eq_of_locks (h.grant p txn mode) locks_grant (PageLocks.grant_eq_self hhas)

theorem Coherent.grant_shared_of_held (h : t.Coherent) (hheld : t.holds p txn = true) : t.grant p txn .shared = t := by
  obtain ⟨held, hmode⟩ := Option.isSome_iff_exists.1 hheld
  exact h.grant_eq_self ⟨held, hmode, fun hshared => nomatch hshared⟩

/-- A lock that is taken and given back leaves no trace. -/
theorem Coherent.release_grant (h : t.Coherent) (hfree : t.holds p txn = false) :
    ((t.grant p txn mode).release p txn).2 = t := by
  have hnone : (t.locks p).holders[txn]? = none := by
    rwa [holds, Option.isSome_eq_false_iff, Option.isNone_iff_eq_none] at hfree
  refine h.eq_of_locks ((h.grant p txn mode).release p txn) (l := ((t.locks p).grant txn mode).release txn)
    (fun q => ?_) (PageLocks.release_grant hnone)
  rw [locks_release, locks_grant, locks_grant, if_pos rfl]
  split
  · rfl
  · rfl

theorem Coherent.grant_exclusive_of_shared (h : t.Coherent) :
    (t.grant p txn .shared).grant p txn .exclusive = t.grant p txn .exclusive := by
  refine (h.grant p txn .exclusive).eq_of_locks ((h.grant p txn .shared).grant p txn .exclusive) (p := p)
    (l := ((t.locks p).grant txn .shared).grant txn .exclusive) (fun q => ?_) ?_
  · rw [locks_grant, locks_grant, locks_grant, if_pos rfl]
    split
    · rfl
    · next hq => rw [locks_grant, if_neg hq]
  · rw [locks_grant, if_pos rfl]
    exact PageLocks.grant_exclusive_of_shared

/-! ### Locks on several pages -/

/-- The transaction is granted the mode on each page. -/
def grantEach (t : LockTable) (txn : TxnId) (mode : LockMode) (pages : List PageId) : LockTable :=
  pages.foldl (fun t p => t.grant p txn mode) t

theorem waiters_grantEach (pages : List PageId) (q : PageId) :
    ((t.grantEach txn mode pages).locks q).waiters = (t.locks q).waiters := by
  induction pages generalizing t with
  | nil => rfl
  | cons p pages ih => exact ih.trans (waiters_grant q)

/-- The transaction gets exactly these locks, if it had none on the pages. -/
theorem mode?_grantEach (hnodup : pages.Nodup) (hfree : ∀ p ∈ pages, t.mode? p txn = none) (q : PageId) (u : TxnId) :
    (t.grantEach txn mode pages).mode? q u = if u = txn ∧ q ∈ pages then some mode else t.mode? q u := by
  induction pages generalizing t with
  | nil => simp [grantEach]
  | cons p pages ih =>
    obtain ⟨hp, hnodup⟩ := List.nodup_cons.1 hnodup
    have hothers : ∀ q ∈ pages, (t.grant p txn mode).mode? q txn = none := fun q hq => by
      have hne : q ≠ p := fun heq => hp (heq ▸ hq)
      rw [mode?_grant, if_neg (fun h => hne h.1)]
      exact hfree q (List.mem_cons_of_mem p hq)
    have hgranted : (t.locks p).granted txn mode = mode := PageLocks.granted_of_none (hfree p List.mem_cons_self)
    have hstep : (t.grantEach txn mode (p :: pages)) = (t.grant p txn mode).grantEach txn mode pages := rfl
    rw [hstep, ih hnodup hothers, mode?_grant, hgranted]
    by_cases hq : q = p
    · subst hq
      by_cases hu : u = txn
      · simp [hu]
      · simp [hu]
    · simp [hq]

theorem Coherent.grantEach (h : t.Coherent) (txn : TxnId) (mode : LockMode) (pages : List PageId) :
    (t.grantEach txn mode pages).Coherent := by
  induction pages generalizing t with
  | nil => exact h
  | cons p pages ih => exact ih (h.grant p txn mode)

/-- The transaction has got the mode on these pages, and nothing else has happened to the locks: nobody else's mode and
no other mode of its own has changed, the same requests wait, and both sides of the table agree. -/
structure Gets (txn : TxnId) (mode : LockMode) (pages : List PageId) (t t' : LockTable) : Prop where
  modes : ∀ q u, t'.mode? q u = if u = txn ∧ q ∈ pages then some mode else t.mode? q u
  waiters : ∀ q, (t'.locks q).waiters = (t.locks q).waiters
  coherent : t'.Coherent

theorem Coherent.gets_exclusive (h : t.Coherent) (p : PageId) (txn : TxnId) :
    Gets txn .exclusive [p] t (t.grant p txn .exclusive) where
  modes q u := by
    rw [mode?_grant, PageLocks.granted_exclusive]
    exact if_congr (by rw [List.mem_singleton, and_comm]) rfl rfl
  waiters := waiters_grant
  coherent := h.grant p txn .exclusive

theorem Coherent.gets_each (h : t.Coherent) (hnodup : pages.Nodup) (hfree : ∀ p ∈ pages, t.mode? p txn = none) :
    Gets txn mode pages t (t.grantEach txn mode pages) :=
  ⟨mode?_grantEach hnodup hfree, waiters_grantEach pages, h.grantEach txn mode pages⟩

end LockTable

end HeapStore
