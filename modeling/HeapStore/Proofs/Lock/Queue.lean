import HeapStore.Proofs.Lock.Modes
import Mathlib.Data.List.TakeWhile
import Mathlib.Tactic.Tauto

/-!
# The queue of a page

When a request can be granted, and how the operations on a page change that.

* **The queue rule.** `ahead txn` are the requests before the transaction's first one. A request may pass
  the queue if nothing is ahead of it, or if it is queued, shared, and has only shared requests ahead of
  it (`MayPass`). `grantable_iff` puts the rule together with the holders' side (`Has`, `Admits`): who has
  no part in the page needs both the other holders and the queue to let it in.
* **Places in the queue.** What is ahead of a transaction stays ahead while it is queued: a new request
  goes to the end (`mem_ahead_enqueue`), and a withdrawal keeps the order (`mem_ahead_dequeue`).
* **What a change can enable.** A grant to another transaction and a request that joins the queue make no
  other request grantable (`grantable_of_grant`, `grantable_of_enqueue`). A request that was refused and
  is grantable once it is queued stands behind another one that is grantable (`exists_grantable_ahead`).
-/

namespace HeapStore.PageLocks

variable {l : PageLocks} {txn u : TxnId} {mode mode' : LockMode} {r : LockRequest}

/-- The requests before the transaction's first one; all of them if it has none. -/
def ahead (l : PageLocks) (txn : TxnId) : List LockRequest := l.waiters.takeWhile (·.txn ≠ txn)

/-- The transaction has a request in the queue. -/
def Queued (l : PageLocks) (txn : TxnId) : Prop := ∃ r ∈ l.waiters, r.txn = txn

instance (l : PageLocks) (txn : TxnId) : Decidable (l.Queued txn) :=
  inferInstanceAs (Decidable (∃ r ∈ l.waiters, r.txn = txn))

/-- The queue lets the request through. -/
def MayPass (l : PageLocks) (txn : TxnId) (mode : LockMode) : Prop :=
  l.ahead txn = [] ∨ mode = .shared ∧ l.Queued txn ∧ ∀ r ∈ l.ahead txn, r.mode = .shared

/-! ### The queue rule -/

theorem mem_waiters_of_mem_ahead (h : r ∈ l.ahead txn) : r ∈ l.waiters :=
  (List.takeWhile_sublist _).mem h

theorem ne_of_mem_ahead (h : r ∈ l.ahead txn) : r.txn ≠ txn := by
  simpa using List.mem_takeWhile_imp h

theorem ahead_congr {l' : PageLocks} (h : l.waiters = l'.waiters) : l.ahead txn = l'.ahead txn := by
  rw [ahead, ahead, h]

theorem ahead_of_not_queued (h : ¬ l.Queued txn) : l.ahead txn = l.waiters := by
  rw [ahead, List.takeWhile_eq_self_iff]
  intro r hr
  simpa using fun heq => h ⟨r, hr, heq⟩

/-- The queue of a transaction that is in it: what is ahead, its first request, and the rest. -/
theorem waiters_of_queued (h : l.Queued txn) :
    ∃ r rest, r.txn = txn ∧ l.waiters = l.ahead txn ++ r :: rest := by
  have hsplit : l.ahead txn ++ l.waiters.dropWhile (·.txn ≠ txn) = l.waiters := List.takeWhile_append_dropWhile
  cases hrest : l.waiters.dropWhile (·.txn ≠ txn) with
  | nil =>
    obtain ⟨r, hr, htxn⟩ := h
    exact absurd htxn (by simpa using List.dropWhile_eq_nil_iff.1 hrest r hr)
  | cons r rest =>
    have hhead := List.dropWhile_get_zero_not (·.txn ≠ txn) l.waiters (by rw [hrest]; exact Nat.succ_pos _)
    simp only [hrest, List.get_eq_getElem, List.getElem_cons_zero] at hhead
    exact ⟨r, rest, by simpa using hhead, by rw [← hrest, hsplit]⟩

theorem queueAllows_iff : l.queueAllows txn mode = true ↔ l.MayPass txn mode := by
  by_cases hq : l.Queued txn
  · obtain ⟨r, rest, htxn, hwaiters⟩ := waiters_of_queued hq
    have hahead : (l.ahead txn).findIdx? (·.txn = txn) = none :=
      List.findIdx?_eq_none_iff.2 fun r hr => by simpa using ne_of_mem_ahead hr
    have hplace : l.waiters.findIdx? (·.txn = txn) = some (l.ahead txn).length := by
      rw [hwaiters, List.findIdx?_append, hahead, List.findIdx?_cons]
      simp [htxn]
    have htake : l.waiters.take (l.ahead txn).length = l.ahead txn := by
      rw [hwaiters]
      exact List.take_left
    unfold queueAllows MayPass
    rw [hplace]
    split
    · next h => simp at h
    · next h =>
      have hnone : l.ahead txn = [] := List.length_eq_zero_iff.1 (Option.some.inj h)
      simp [hnone]
    · next place hpos h =>
      obtain rfl := Option.some.inj h
      have hsome : l.ahead txn ≠ [] := fun hnone => hpos (by rw [hnone, List.length_nil])
      simp [htake, hsome, hq]
  · have hplace : l.waiters.findIdx? (·.txn = txn) = none :=
      List.findIdx?_eq_none_iff.2 fun r hr => by simpa using fun heq => hq ⟨r, hr, heq⟩
    simp [queueAllows, MayPass, hplace, ahead_of_not_queued hq, hq]

theorem grantable_iff :
    l.grantable txn mode = true ↔
      l.Has txn mode ∨ l.Admits txn mode ∧ (l.Has txn .shared ∨ l.MayPass txn mode) := by
  simp only [grantable, Bool.or_eq_true, Bool.and_eq_true, alreadyHolds_iff, isUpgrade_iff, compatible_iff,
    queueAllows_iff]
  cases mode with
  | shared =>
    simp only [reduceCtorEq, false_and, or_false]
    tauto
  | exclusive =>
    simp only [true_and]
    tauto

/-- A request of a holder: for a mode that it has, or for more while nobody else holds the page. -/
def Renews (l : PageLocks) (txn : TxnId) (mode : LockMode) : Prop :=
  l.Has txn mode ∨ l.Has txn .shared ∧ l.Admits txn mode

/-- Whom the queue does not let through is granted as a holder or not at all. -/
theorem renews_of_grantable (h : l.grantable txn mode = true) (hpass : ¬ l.MayPass txn mode) :
    l.Renews txn mode :=
  (grantable_iff.1 h).imp_right fun ⟨hadmits, hhas⟩ => ⟨hhas.resolve_right hpass, hadmits⟩

theorem grantable_of_renews (h : l.Renews txn mode) : l.grantable txn mode = true :=
  grantable_iff.2 (h.imp_right fun ⟨hhas, hadmits⟩ => ⟨hadmits, .inl hhas⟩)

theorem not_mayPass (hq : ¬ l.Queued txn) (hsome : l.waiters ≠ []) : ¬ l.MayPass txn mode := by
  rintro (hnone | ⟨-, hqueued, -⟩)
  · exact hsome (by rw [← ahead_of_not_queued hq, hnone])
  · exact hq hqueued

/-- Somebody else holds the page, so an exclusive request waits. -/
theorem mode_eq_shared_of_grantable {held : LockMode} (hs : l.Safe) (hu : l.holders[u]? = some held)
    (hne : u ≠ txn) (h : l.grantable txn mode = true) : mode = .shared := by
  rcases of_grantable h with ⟨m, hm, hle⟩ | hadmits
  · cases mode with
    | shared => rfl
    | exclusive => exact absurd (hs txn u held (hle rfl ▸ hm) hu) hne
  · exact (hadmits u held hu hne).1

/-! ### The operations and the queue -/

@[simp] theorem waiters_grant : (l.grant txn mode).waiters = l.waiters := rfl

@[simp] theorem waiters_release : (l.release txn).waiters = l.waiters := rfl

@[simp] theorem holders_dequeue : (l.dequeue txn).holders = l.holders := rfl

theorem dequeue_enqueue : (l.enqueue txn mode).dequeue txn = l.dequeue txn := by
  simp [enqueue, dequeue]

theorem mem_waiters_dequeue : r ∈ (l.dequeue u).waiters ↔ r ∈ l.waiters ∧ r.txn ≠ u := by
  simp [dequeue]

/-- A withdrawal takes out one request alone exactly when the transaction has no other in the queue. -/
theorem dequeue_removes_iff :
    (∃ before behind, l.waiters = before ++ r :: behind ∧ (l.dequeue r.txn).waiters = before ++ behind) ↔
      l.waiters.filter (·.txn = r.txn) = [r] := by
  rw [List.filter_eq_cons_iff]
  constructor
  · rintro ⟨before, behind, hwaiters, hleft⟩
    have hothers : ∀ c ∈ before ++ behind, c.txn ≠ r.txn := fun c hc =>
      (mem_waiters_dequeue.1 (hleft ▸ hc)).2
    refine ⟨before, behind, hwaiters, fun c hc => ?_, by simp, List.filter_eq_nil_iff.2 fun c hc => ?_⟩
    · simpa using hothers c (List.mem_append_left _ hc)
    · simpa using hothers c (List.mem_append_right _ hc)
  · rintro ⟨before, behind, hwaiters, hbefore, -, hbehind⟩
    have hkeep : ∀ xs : List LockRequest, (∀ c ∈ xs, ¬ decide (c.txn = r.txn) = true) →
        xs.filter (·.txn ≠ r.txn) = xs := fun xs hxs =>
      List.filter_eq_self.2 fun c hc => by simpa using hxs c hc
    refine ⟨before, behind, hwaiters, ?_⟩
    rw [dequeue, hwaiters, List.filter_append, List.filter_cons_of_neg (by simp),
      hkeep before hbefore, hkeep behind (List.filter_eq_nil_iff.1 hbehind)]

theorem mem_waiters_enqueue : r ∈ (l.enqueue u mode).waiters ↔ r ∈ l.waiters ∨ r = ⟨u, mode⟩ := by
  simp [enqueue]

theorem mem_takeWhile_mono {α : Type} {p q : α → Bool} (h : ∀ x, p x = true → q x = true) {xs : List α}
    {x : α} (hx : x ∈ xs.takeWhile p) : x ∈ xs.takeWhile q := by
  induction xs with
  | nil => simp at hx
  | cons y ys ih =>
    rw [List.takeWhile_cons] at hx ⊢
    split at hx
    · next hy =>
      rw [if_pos (h y hy)]
      exact List.mem_cons.2 ((List.mem_cons.1 hx).imp_right ih)
    · simp at hx

theorem mem_ahead_enqueue (h : r ∈ l.ahead txn) : r ∈ (l.enqueue u mode).ahead txn := by
  unfold ahead enqueue
  rw [List.takeWhile_append]
  split
  · exact List.mem_append_left _ (mem_waiters_of_mem_ahead h)
  · exact h

/-- Whoever is ahead stays ahead until its own transaction's requests are withdrawn. -/
theorem mem_ahead_dequeue (h : r ∈ l.ahead txn) (hne : r.txn ≠ u) : r ∈ (l.dequeue u).ahead txn := by
  unfold ahead dequeue
  rw [List.takeWhile_filter]
  refine List.mem_filter.2 ⟨mem_takeWhile_mono (fun x hx => ?_) h, by simpa using hne⟩
  rw [hx, Bool.or_true]

theorem ahead_dequeue (hne : u ≠ txn) : (l.dequeue u).ahead txn = (l.ahead txn).filter (·.txn ≠ u) := by
  unfold ahead dequeue
  rw [List.takeWhile_filter]
  congr 2
  funext r
  by_cases hr : r.txn = u
  · simp [hr, hne]
  · simp [hr]

theorem ahead_enqueue_of_queued (h : l.Queued txn) : (l.enqueue u mode).ahead txn = l.ahead txn := by
  obtain ⟨r, hr, htxn⟩ := h
  have hne : ¬ (l.waiters.takeWhile (·.txn ≠ txn)).length = l.waiters.length := by
    intro hlength
    have hall := (List.takeWhile_prefix _).eq_of_length hlength
    rw [List.takeWhile_eq_self_iff] at hall
    simpa [htxn] using hall r hr
  unfold ahead enqueue
  rw [List.takeWhile_append, if_neg hne]

theorem ahead_enqueue_self (h : ¬ l.Queued txn) : (l.enqueue txn mode).ahead txn = l.waiters := by
  have hall := ahead_of_not_queued h
  unfold ahead at hall
  unfold ahead enqueue
  rw [List.takeWhile_append, if_pos (by rw [hall]), List.takeWhile_cons]
  simp

theorem Queued.enqueue (h : l.Queued txn) : (l.enqueue u mode).Queued txn := by
  obtain ⟨r, hr, htxn⟩ := h
  exact ⟨r, mem_waiters_enqueue.2 (.inl hr), htxn⟩

theorem queued_dequeue_iff (hne : u ≠ txn) : (l.dequeue u).Queued txn ↔ l.Queued txn := by
  unfold Queued
  simp only [mem_waiters_dequeue]
  constructor
  · rintro ⟨r, ⟨hr, -⟩, htxn⟩
    exact ⟨r, hr, htxn⟩
  · rintro ⟨r, hr, htxn⟩
    exact ⟨r, ⟨hr, fun h => hne (h.symm.trans htxn)⟩, htxn⟩

/-! ### What a change leaves as it is -/

theorem ext_holders {l' : PageLocks} (hh : ∀ u : TxnId, l.holders[u]? = l'.holders[u]?)
    (hw : l.waiters = l'.waiters) :
    l = l' := by
  obtain ⟨holders, waiters⟩ := l
  obtain ⟨holders', waiters'⟩ := l'
  obtain rfl : holders = holders' := Std.ExtTreeMap.ext_getElem? hh
  obtain rfl : waiters = waiters' := hw
  rfl

theorem grant_eq_self (h : l.Has txn mode) : l.grant txn mode = l := by
  obtain ⟨held, hheld, hle⟩ := h
  exact ext_holders (holders_grant_of_le hheld hle) rfl

theorem release_eq_self (h : l.holders[txn]? = none) : l.release txn = l := by
  refine ext_holders (fun u => ?_) rfl
  rw [holders_release]
  split
  · next hu => rw [hu, h]
  · rfl

/-! ### What a change can enable -/

theorem grantable_of_grant (hne : u ≠ txn) (h : (l.grant u mode').grantable txn mode = true) :
    l.grantable txn mode = true := by
  have hhas : ∀ {m}, (l.grant u mode').Has txn m ↔ l.Has txn m := fun {m} => by
    unfold Has
    rw [holders_grant, if_neg (Ne.symm hne)]
  rw [grantable_iff, hhas, hhas] at h
  refine grantable_iff.2 (h.imp_right (And.imp_left fun hadmits v held hv hvne => ?_))
  by_cases hvu : v = u
  · subst hvu
    obtain ⟨hmode, hgranted⟩ := hadmits v _ (by rw [holders_grant, if_pos rfl]) hvne
    refine ⟨hmode, ?_⟩
    rw [granted, hv, Option.map_some, Option.getD_some] at hgranted
    cases held with
    | shared => rfl
    | exclusive => cases mode' <;> simp [LockMode.join] at hgranted
  · exact hadmits v held (by rw [holders_grant, if_neg hvu, hv]) hvne

/-- A holder's request, once granted, leaves the others as they were or makes them all wait. -/
theorem grant_of_renews (hs : l.Safe) (h : l.Renews txn mode) (hne : u ≠ txn) :
    l.grant txn mode = l ∨ (l.grant txn mode).grantable u mode' = false := by
  refine or_iff_not_imp_left.2 fun hchange => ?_
  have hnot : ¬ l.Has txn mode := fun hhas => hchange (grant_eq_self hhas)
  obtain ⟨hshared, hadmits⟩ := h.resolve_left hnot
  have hexclusive : mode = .exclusive := by
    cases mode with
    | shared => exact absurd hshared hnot
    | exclusive => rfl
  subst hexclusive
  have hsafe : (l.grant txn .exclusive).Safe := hs.grant (grantable_of_renews h)
  refine hsafe.not_grantable (t := txn) ?_ hne
  rw [holders_grant, if_pos rfl, mode_le_granted rfl]

theorem grantable_of_enqueue (hne : u ≠ txn) (h : (l.enqueue u mode').grantable txn mode = true) :
    l.grantable txn mode = true := by
  have hqueued : (l.enqueue u mode').Queued txn → l.Queued txn := by
    rintro ⟨r, hr, htxn⟩
    rcases mem_waiters_enqueue.1 hr with hr | rfl
    · exact ⟨r, hr, htxn⟩
    · exact absurd htxn hne
  rw [grantable_iff] at h ⊢
  refine h.imp_right (And.imp_right (Or.imp_right ?_))
  rintro (hnone | ⟨hmode, hin, hall⟩)
  · refine .inl (List.eq_nil_iff_forall_not_mem.2 fun r hr => ?_)
    have hmem : r ∈ (l.enqueue u mode').ahead txn := mem_ahead_enqueue hr
    rw [hnone] at hmem
    simp at hmem
  · exact .inr ⟨hmode, hqueued hin, fun r hr => hall r (mem_ahead_enqueue hr)⟩

/-- A request that is queued already does not notice the one that joins behind it. -/
theorem grantable_enqueue_of_queued (hq : l.Queued txn) :
    (l.enqueue u mode').grantable txn mode = l.grantable txn mode := by
  rw [Bool.eq_iff_iff, grantable_iff, grantable_iff]
  unfold MayPass
  rw [ahead_enqueue_of_queued hq]
  have hiff : (l.enqueue u mode').Queued txn ↔ l.Queued txn := ⟨fun _ => hq, Queued.enqueue⟩
  rw [hiff]
  exact Iff.rfl

/-- A request that was refused and is grantable once it is queued stands behind one that is grantable. -/
theorem exists_grantable_ahead (hq : ¬ l.Queued txn) (hrefused : l.grantable txn mode = false)
    (h : (l.enqueue txn mode).grantable txn mode = true) :
    ∃ r ∈ l.waiters, l.grantable r.txn r.mode = true := by
  have hno := mt grantable_iff.2 (by rw [hrefused]; exact Bool.false_ne_true)
  have hyes := grantable_iff.1 h
  have hhas : ∀ {m}, (l.enqueue txn mode).Has txn m ↔ l.Has txn m := Iff.rfl
  have hadmits_iff : (l.enqueue txn mode).Admits txn mode ↔ l.Admits txn mode := Iff.rfl
  rw [hhas, hhas, hadmits_iff] at hyes
  obtain ⟨hadmits, hpass⟩ := hyes.resolve_left fun hhas => hno (.inl hhas)
  have hnotHeld : ¬ l.Has txn .shared := fun hheld => hno (.inr ⟨hadmits, .inl hheld⟩)
  have hnoPass : ¬ l.MayPass txn mode := fun hp => hno (.inr ⟨hadmits, .inr hp⟩)
  have hsome : l.waiters ≠ [] := fun hnone => hnoPass (.inl (by rw [ahead_of_not_queued hq, hnone]))
  rcases hpass.resolve_left hnotHeld with hnone | ⟨hmode, -, hall⟩
  · rw [ahead_enqueue_self hq] at hnone
    exact absurd hnone hsome
  · subst hmode
    rw [ahead_enqueue_self hq] at hall
    -- Every holder is shared, so the head of the queue may go.
    obtain ⟨r, rest, hwaiters⟩ := List.exists_cons_of_ne_nil hsome
    have hr : r ∈ l.waiters := hwaiters ▸ List.mem_cons_self
    refine ⟨r, hr, grantable_iff.2 (.inr ⟨fun u held hu _ => ⟨hall r hr, ?_⟩, .inr (.inl ?_)⟩)⟩
    · by_cases hut : u = txn
      · exact absurd ⟨held, hut ▸ hu, by simp [LE.le]⟩ hnotHeld
      · exact (hadmits u held hu hut).2
    · simp [ahead, hwaiters]

end HeapStore.PageLocks
