import HeapStore.Proofs.Lock.Queue
import HeapStore.Proofs.Lock.Safety

/-!
# Acquires that wait, and their requests

An acquire that cannot be granted waits: it is blocked, and its request stands in the queue of its page.
The queue is searched by transaction, so the two may part: when an acquire ends, all requests of its
transaction leave the page's queue, also one of another acquire that goes on waiting.

* **Turnover.** `turnover_after` says what any step does to queues and blocked acquires: nothing, one
  acquire joins, or one leaves and takes its transaction's requests along.
* **In every reachable state** tickets tell blocked acquires apart (`Reachable.ticketed`), and every
  request in a queue belongs to a blocked acquire (`Reachable.asked`).
* **Orderly runs.** A transaction asks for no page on which one of its acquires is blocked. Then each
  blocked acquire has its request in the queue, is the only one of its transaction there, and stands
  ahead of those that came later (`Orderly.inLine`).
-/

namespace HeapStore

/-- What a blocked acquire put into the queue. -/
def Blocked.request (b : Blocked) : LockRequest := ⟨b.txn, b.mode⟩

namespace LockTable

variable {t : LockTable} {p : PageId} {txn : TxnId} {mode : LockMode}

/-- The blocked acquire's request can be granted now. -/
def CanGo (t : LockTable) (b : Blocked) : Prop := t.grantable b.page b.txn b.mode = true

instance (t : LockTable) (b : Blocked) : Decidable (t.CanGo b) :=
  inferInstanceAs (Decidable (t.grantable b.page b.txn b.mode = true))

theorem canGo_congr {t' : LockTable} {b : Blocked} (h : t'.locks b.page = t.locks b.page) :
    t'.CanGo b ↔ t.CanGo b := by
  rw [CanGo, CanGo, grantable, grantable, h]

theorem locks_enqueue (q : PageId) :
    (t.enqueue p txn mode).locks q = if q = p then (t.locks p).enqueue txn mode else t.locks q :=
  locks_setLocks _ q

theorem locks_withdraw (q : PageId) :
    (t.withdraw p txn).locks q = if q = p then (t.locks p).dequeue txn else t.locks q :=
  locks_setLocks _ q

theorem locks_withdraw_grant (q : PageId) :
    ((t.withdraw p txn).grant p txn mode).locks q =
      if q = p then ((t.locks p).dequeue txn).grant txn mode else t.locks q := by
  rw [locks_grant]
  split
  · rw [locks_withdraw, if_pos rfl]
  · next h => rw [locks_withdraw, if_neg h]

/-- A transaction that gives up all its locks releases some pages and leaves the others alone. -/
theorem locks_releaseAll (q : PageId) :
    (t.releaseAll txn).locks q = t.locks q ∨ (t.releaseAll txn).locks q = (t.locks q).release txn := by
  have twice : ((t.locks q).release txn).release txn = (t.locks q).release txn :=
    PageLocks.release_eq_self (by rw [PageLocks.holders_release, if_pos rfl])
  have fold : ∀ (pages : List PageId) (t' : LockTable),
      t'.locks q = t.locks q ∨ t'.locks q = (t.locks q).release txn →
      (pages.foldl (fun t p => (t.release p txn).2) t').locks q = t.locks q ∨
        (pages.foldl (fun t p => (t.release p txn).2) t').locks q = (t.locks q).release txn := by
    intro pages
    induction pages with
    | nil => exact fun _ h => h
    | cons p pages ih =>
      intro t' h
      refine ih _ ?_
      rw [locks_release]
      split
      · next hq =>
        subst hq
        rcases h with h | h
        · exact .inr (by rw [h])
        · exact .inr (by rw [h, twice])
      · exact h
  exact fold _ _ (.inl rfl)

/-- The requests of every queue stay when locks are given up. -/
theorem waiters_releaseAll (q : PageId) : ((t.releaseAll txn).locks q).waiters = (t.locks q).waiters := by
  rcases @locks_releaseAll t txn q with h | h
  · rw [h]
  · rw [h, PageLocks.waiters_release]

/-- The release of a page that is not held changes nothing. -/
theorem locks_release_of_free (h : (t.release p txn).1 = false) (q : PageId) :
    (t.release p txn).2.locks q = t.locks q := by
  rw [locks_release]
  split
  · next hq =>
    rw [release_fst, holds, mode?, Option.isSome_eq_false_iff, Option.isNone_iff_eq_none] at h
    rw [PageLocks.release_eq_self h, hq]
  · rfl

theorem waiters_release (q : PageId) : ((t.release p txn).2.locks q).waiters = (t.locks q).waiters := by
  rw [locks_release]
  split
  · next h => rw [h, PageLocks.waiters_release]
  · rfl

theorem waiters_grant (q : PageId) : ((t.grant p txn mode).locks q).waiters = (t.locks q).waiters := by
  rw [locks_grant]
  split
  · next h => rw [h, PageLocks.waiters_grant]
  · rfl

theorem waiters_withdraw_grant (q : PageId) :
    (((t.withdraw p txn).grant p txn mode).locks q).waiters =
      (if q = p then (t.locks p).dequeue txn else t.locks q).waiters := by
  rw [waiters_grant, locks_withdraw]

theorem waiters_atDeadline (q : PageId) :
    ((t.atDeadline p txn mode).2.locks q).waiters =
      (if q = p then (t.locks p).dequeue txn else t.locks q).waiters := by
  unfold atDeadline
  split
  · exact waiters_withdraw_grant q
  · rw [locks_withdraw]

end LockTable

namespace LockManager

open LockTable

variable {m m' : LockManager} {a : Action} {b c : Blocked}

/-! ### Tickets -/

/-- Tickets tell the blocked acquires apart and are given out in ascending order. -/
structure Ticketed (m : LockManager) : Prop where
  lt : ∀ b ∈ m.blocked, b.ticket < m.nextTicket
  inj : ∀ b ∈ m.blocked, ∀ c ∈ m.blocked, b.ticket = c.ticket → b = c

theorem mem_blocked : b ∈ m.blocked ↔ b ∈ m.asleep ∨ b ∈ m.awake := List.mem_append

theorem mem_wakeAll : b ∈ m.wakeAll.blocked ↔ b ∈ m.blocked := by
  simp only [wakeAll, mem_blocked, List.mem_append, List.not_mem_nil, false_or]
  exact Or.comm

theorem mem_sleep : c ∈ (m.sleep b).blocked ↔ c ∈ m.blocked ∨ c = b := by
  simp only [sleep, mem_blocked, List.mem_append, List.mem_singleton]
  tauto

theorem mem_without {ticket : Nat} {acquires : List Blocked} :
    b ∈ without ticket acquires ↔ b ∈ acquires ∧ b.ticket ≠ ticket := by
  simp [without]

/-- Among acquires with tickets, one is taken out and the others stay. -/
theorem Ticketed.mem_unblock (hm : m.Ticketed) (hb : b ∈ m.blocked) :
    c ∈ (m.unblock b.ticket).blocked ↔ c ∈ m.blocked ∧ c ≠ b := by
  have hne : c ∈ m.blocked → (c.ticket ≠ b.ticket ↔ c ≠ b) := fun hc =>
    not_congr ⟨hm.inj c hc b hb, fun h => h ▸ rfl⟩
  simp only [mem_blocked, unblock, mem_without] at hne ⊢
  tauto

theorem recheck_of_refused (h : ¬ m.table.CanGo b) : m.recheck b = (none, (m.unblock b.ticket).sleep b) :=
  if_neg h

theorem recheck_of_granted (h : m.table.CanGo b) :
    m.recheck b = (some ⟨b, true⟩,
      { (m.unblock b.ticket).wakeAll with table := (m.table.withdraw b.page b.txn).grant b.page b.txn b.mode }) :=
  if_pos h

theorem Ticketed.mem_recheck_of_refused (hm : m.Ticketed) (hb : b ∈ m.blocked) (hgo : ¬ m.table.CanGo b) :
    c ∈ (m.recheck b).2.blocked ↔ c ∈ m.blocked := by
  rw [recheck_of_refused hgo, mem_sleep, hm.mem_unblock hb]
  constructor
  · rintro (h | rfl)
    · exact h.1
    · exact hb
  · exact fun h => or_iff_not_imp_right.2 fun hne => ⟨h, hne⟩

theorem Ticketed.mem_recheck_of_granted (hm : m.Ticketed) (hb : b ∈ m.blocked) (hgo : m.table.CanGo b) :
    c ∈ (m.recheck b).2.blocked ↔ c ∈ m.blocked ∧ c ≠ b := by
  rw [recheck_of_granted hgo]
  exact mem_wakeAll.trans (hm.mem_unblock hb)

/-! ### What a step does to the queues -/

/-- Who begins and who ends to wait in a step. -/
inductive Turnover (m : LockManager) (a : Action) (m' : LockManager) : Prop
  /-- Nobody. -/
  | nobody (waiters : ∀ q, (m'.table.locks q).waiters = (m.table.locks q).waiters)
      (blocked : ∀ c, c ∈ m'.blocked ↔ c ∈ m.blocked) (tickets : m'.nextTicket = m.nextTicket)
  /-- An acquire joins: it gets the next ticket, and its request goes to the end of the queue. -/
  | joins (b : Blocked) (step : a = .acquire b.page b.txn b.mode) (ticket : b.ticket = m.nextTicket)
      (waiters : ∀ q, (m'.table.locks q).waiters =
        (if q = b.page then (m.table.locks b.page).enqueue b.txn b.mode else m.table.locks q).waiters)
      (blocked : ∀ c, c ∈ m'.blocked ↔ c ∈ m.blocked ∨ c = b) (tickets : m'.nextTicket = m.nextTicket + 1)
  /-- An acquire leaves, and with it all requests of its transaction for the page. -/
  | leaves (b : Blocked) (step : a = .recheck b ∨ a = .expire b) (mem : b ∈ m.blocked)
      (waiters : ∀ q, (m'.table.locks q).waiters =
        (if q = b.page then (m.table.locks b.page).dequeue b.txn else m.table.locks q).waiters)
      (blocked : ∀ c, c ∈ m'.blocked ↔ c ∈ m.blocked ∧ c ≠ b) (tickets : m'.nextTicket = m.nextTicket)

theorem turnover_acquire (p : PageId) (txn : TxnId) (mode : LockMode) :
    Turnover m (.acquire p txn mode) (m.acquire p txn mode).2 := by
  unfold acquire
  split
  · exact .nobody waiters_grant (fun _ => Iff.rfl) rfl
  · exact .joins ⟨m.nextTicket, p, txn, mode⟩ rfl rfl (fun q => congrArg (·.waiters) (locks_enqueue q))
      (fun _ => mem_sleep) rfl

/-- A blocked acquire leaves, with the lock or without it. -/
theorem turnover_leave (hm : m.Ticketed) (hb : b ∈ m.blocked) (ha : a = .recheck b ∨ a = .expire b)
    {table : LockTable}
    (htable : ∀ q, (table.locks q).waiters =
      (if q = b.page then (m.table.locks b.page).dequeue b.txn else m.table.locks q).waiters) :
    Turnover m a { (m.unblock b.ticket).wakeAll with table } :=
  .leaves b ha hb htable (fun _ => mem_wakeAll.trans (hm.mem_unblock hb)) rfl

theorem turnover_after (hm : m.Ticketed) (ha : a.Enabled m) : Turnover m a (m.after a) := by
  cases a with
  | tryAcquire p txn mode =>
    refine .nobody (fun q => ?_) (fun _ => Iff.rfl) rfl
    show ((m.table.tryAcquire p txn mode).2.locks q).waiters = _
    unfold LockTable.tryAcquire
    split
    · exact waiters_grant q
    · rfl
  | acquire p txn mode => exact turnover_acquire p txn mode
  | recheck b =>
    by_cases hgo : m.table.CanGo b
    · rw [after, recheck_of_granted hgo]
      exact turnover_leave hm ha (.inl rfl) waiters_withdraw_grant
    · have hblocked : ∀ c, c ∈ (m.recheck b).2.blocked ↔ c ∈ m.blocked := fun _ =>
        hm.mem_recheck_of_refused ha hgo
      rw [recheck_of_refused hgo] at hblocked
      rw [after, recheck_of_refused hgo]
      exact .nobody (fun _ => rfl) hblocked rfl
  | expire b => exact turnover_leave hm ha (.inr rfl) waiters_atDeadline
  | release p txn =>
    simp only [after, release]
    split
    · exact .nobody waiters_release (fun _ => mem_wakeAll) rfl
    · exact .nobody waiters_release (fun _ => Iff.rfl) rfl
  | releaseAll txn => exact .nobody waiters_releaseAll (fun _ => mem_wakeAll) rfl

theorem Turnover.ticketed (h : Turnover m a m') (hm : m.Ticketed) : m'.Ticketed := by
  cases h with
  | nobody _ blocked tickets =>
    exact ⟨fun b hb => tickets ▸ hm.lt b ((blocked b).1 hb),
      fun b hb c hc => hm.inj b ((blocked b).1 hb) c ((blocked c).1 hc)⟩
  | joins d _ ticket _ blocked tickets =>
    refine ⟨fun b hb => ?_, fun b hb c hc heq => ?_⟩
    · rcases (blocked b).1 hb with hb | rfl
      · have := hm.lt b hb
        omega
      · omega
    · rcases (blocked b).1 hb with hb | rfl <;> rcases (blocked c).1 hc with hc | rfl
      · exact hm.inj b hb c hc heq
      · have := hm.lt b hb
        omega
      · have := hm.lt c hc
        omega
      · rfl
  | leaves d _ _ _ blocked tickets =>
    exact ⟨fun b hb => tickets ▸ hm.lt b ((blocked b).1 hb).1,
      fun b hb c hc => hm.inj b ((blocked b).1 hb).1 c ((blocked c).1 hc).1⟩

theorem Reachable.ticketed (h : m.Reachable) : m.Ticketed := by
  induction h with
  | start => exact ⟨fun b hb => by simp [blocked] at hb, fun b hb => by simp [blocked] at hb⟩
  | step a _ ha ih => exact (turnover_after ih ha).ticketed ih

/-! ### Requests of blocked acquires -/

/-- Every request in a queue belongs to an acquire that waits. -/
def Asked (m : LockManager) : Prop :=
  ∀ q, ∀ r ∈ (m.table.locks q).waiters, ∃ b ∈ m.blocked, b.page = q ∧ b.request = r

theorem Turnover.asked (h : Turnover m a m') (hm : m.Asked) : m'.Asked := by
  intro q r hr
  cases h with
  | nobody waiters blocked _ =>
    rw [waiters] at hr
    obtain ⟨b, hb, hpage, hreq⟩ := hm q r hr
    exact ⟨b, (blocked b).2 hb, hpage, hreq⟩
  | joins d _ _ waiters blocked _ =>
    have hr' : r ∈ (m.table.locks q).waiters ∨ q = d.page ∧ r = d.request := by
      rw [waiters] at hr
      split at hr
      · next hq =>
        subst hq
        exact (PageLocks.mem_waiters_enqueue.1 hr).imp_right fun h => ⟨rfl, h⟩
      · exact .inl hr
    rcases hr' with hr' | ⟨rfl, rfl⟩
    · obtain ⟨b, hb, hpage, hreq⟩ := hm q r hr'
      exact ⟨b, (blocked b).2 (.inl hb), hpage, hreq⟩
    · exact ⟨d, (blocked d).2 (.inr rfl), rfl, rfl⟩
  | leaves d _ _ waiters blocked _ =>
    have hr' : r ∈ (m.table.locks q).waiters ∧ ¬ (q = d.page ∧ r.txn = d.txn) := by
      rw [waiters] at hr
      split at hr
      · next hq =>
        subst hq
        exact (PageLocks.mem_waiters_dequeue.1 hr).imp_right fun h hand => h hand.2
      · next hq => exact ⟨hr, fun hand => hq hand.1⟩
    obtain ⟨b, hb, hpage, hreq⟩ := hm q r hr'.1
    refine ⟨b, (blocked b).2 ⟨hb, ?_⟩, hpage, hreq⟩
    rintro rfl
    exact hr'.2 ⟨hpage.symm, hreq ▸ rfl⟩

theorem Reachable.asked (h : m.Reachable) : m.Asked := by
  induction h with
  | start =>
    intro q r hr
    simp [locks] at hr
  | step a hprev ha ih => exact (turnover_after hprev.ticketed ha).asked ih

/-! ### Orderly runs -/

/-- The step asks for no page on which its transaction has a blocked acquire. -/
def Action.Single (m : LockManager) : Action → Prop
  | tryAcquire p txn _ | acquire p txn _ => ∀ b ∈ m.blocked, ¬ (b.page = p ∧ b.txn = txn)
  | _ => True

instance (m : LockManager) (a : Action) : Decidable (a.Single m) :=
  match a with
  | .tryAcquire p txn _ | .acquire p txn _ =>
    inferInstanceAs (Decidable (∀ b ∈ m.blocked, ¬ (b.page = p ∧ b.txn = txn)))
  | .recheck _ | .expire _ | .release .. | .releaseAll _ => isTrue trivial

/-- The states that steps of any callers lead to while no transaction asks twice for one page. -/
inductive Orderly : LockManager → Prop
  | start : Orderly {}
  | step {m : LockManager} (a : Action) : Orderly m → a.Enabled m → a.Single m → Orderly (m.after a)

theorem Orderly.reachable (h : m.Orderly) : m.Reachable := by
  induction h with
  | start => exact .start
  | step a _ ha _ ih => exact ih.step a ha

/-- No transaction has two blocked acquires for one page. -/
def OnePerPage (m : LockManager) : Prop :=
  ∀ b ∈ m.blocked, ∀ c ∈ m.blocked, b.page = c.page → b.txn = c.txn → b = c

/-- Each blocked acquire has its place in the queue of its page. -/
structure InLine (m : LockManager) : Prop where
  onePerPage : m.OnePerPage
  queued : ∀ b ∈ m.blocked, b.request ∈ (m.table.locks b.page).waiters
  /-- Who came first stands ahead. -/
  ahead : ∀ b ∈ m.blocked, ∀ c ∈ m.blocked, b.page = c.page → b.ticket < c.ticket →
    b.request ∈ (m.table.locks b.page).ahead c.txn

/-- Nobody has a request in a queue without a blocked acquire. -/
theorem Asked.not_queued {p : PageId} {txn : TxnId} (hm : m.Asked)
    (h : ∀ b ∈ m.blocked, ¬ (b.page = p ∧ b.txn = txn)) : ¬ (m.table.locks p).Queued txn := by
  rintro ⟨r, hr, rfl⟩
  obtain ⟨b, hb, hpage, rfl⟩ := hm p r hr
  exact h b hb ⟨hpage, rfl⟩

theorem Turnover.onePerPage (h : Turnover m a m') (hm : m.OnePerPage) (ha : a.Single m) : m'.OnePerPage := by
  cases h with
  | nobody _ blocked _ => exact fun b hb c hc => hm b ((blocked b).1 hb) c ((blocked c).1 hc)
  | joins d step _ _ blocked _ =>
    subst step
    have hnew : ∀ c ∈ m.blocked, ¬ (c.page = d.page ∧ c.txn = d.txn) := ha
    intro b hb c hc hpage htxn
    rcases (blocked b).1 hb with hb | rfl <;> rcases (blocked c).1 hc with hc | rfl
    · exact hm b hb c hc hpage htxn
    · exact absurd ⟨hpage, htxn⟩ (hnew b hb)
    · exact absurd ⟨hpage.symm, htxn.symm⟩ (hnew c hc)
    · rfl
  | leaves _ _ _ _ blocked _ =>
    exact fun b hb c hc => hm b ((blocked b).1 hb).1 c ((blocked c).1 hc).1

/-- An acquire leaves with the requests of its own transaction, so everybody else's stay in the queue. -/
theorem Turnover.queued (h : Turnover m a m') (hm : m.InLine) :
    ∀ b ∈ m'.blocked, b.request ∈ (m'.table.locks b.page).waiters := by
  intro b hb
  cases h with
  | nobody waiters blocked _ => exact waiters b.page ▸ hm.queued b ((blocked b).1 hb)
  | joins d _ _ waiters blocked _ =>
    rw [waiters]
    rcases (blocked b).1 hb with hb | rfl
    · split
      · next hpage => exact PageLocks.mem_waiters_enqueue.2 (.inl (hpage ▸ hm.queued b hb))
      · exact hm.queued b hb
    · rw [if_pos rfl]
      exact PageLocks.mem_waiters_enqueue.2 (.inr rfl)
  | leaves d _ hd waiters blocked _ =>
    obtain ⟨hb, hbd⟩ := (blocked b).1 hb
    rw [waiters]
    split
    · next hpage =>
      exact PageLocks.mem_waiters_dequeue.2
        ⟨hpage ▸ hm.queued b hb, fun htxn => hbd (hm.onePerPage b hb d hd hpage htxn)⟩
    · exact hm.queued b hb

theorem Turnover.ahead (h : Turnover m a m') (hm : m.InLine) (ht : m.Ticketed) (hasked : m.Asked)
    (ha : a.Single m) :
    ∀ b ∈ m'.blocked, ∀ c ∈ m'.blocked, b.page = c.page → b.ticket < c.ticket →
      b.request ∈ (m'.table.locks b.page).ahead c.txn := by
  intro b hb c hc hpage hlt
  cases h with
  | nobody waiters blocked _ =>
    rw [PageLocks.ahead_congr (waiters b.page)]
    exact hm.ahead b ((blocked b).1 hb) c ((blocked c).1 hc) hpage hlt
  | joins d step ticket waiters blocked _ =>
    subst step
    rw [PageLocks.ahead_congr (waiters b.page)]
    rcases (blocked b).1 hb with hb | rfl <;> rcases (blocked c).1 hc with hc | rfl
    · have := hm.ahead b hb c hc hpage hlt
      split
      · next hd => exact PageLocks.mem_ahead_enqueue (hd ▸ this)
      · exact this
    · -- The one that joins goes behind all the others.
      rw [if_pos hpage, PageLocks.ahead_enqueue_self (hasked.not_queued ha)]
      exact hpage ▸ hm.queued b hb
    · have := ht.lt c hc
      omega
    · omega
  | leaves d _ hd waiters blocked _ =>
    obtain ⟨hb, hbd⟩ := (blocked b).1 hb
    have := hm.ahead b hb c ((blocked c).1 hc).1 hpage hlt
    rw [PageLocks.ahead_congr (waiters b.page)]
    split
    · next hpage' =>
      exact PageLocks.mem_ahead_dequeue (hpage' ▸ this) fun htxn => hbd (hm.onePerPage b hb d hd hpage' htxn)
    · exact this

theorem Turnover.inLine (h : Turnover m a m') (hm : m.InLine) (ht : m.Ticketed) (hasked : m.Asked)
    (ha : a.Single m) : m'.InLine :=
  ⟨h.onePerPage hm.onePerPage ha, h.queued hm, h.ahead hm ht hasked ha⟩

theorem Orderly.inLine (h : m.Orderly) : m.InLine := by
  induction h with
  | start =>
    exact ⟨fun b hb => by simp [blocked] at hb, fun b hb => by simp [blocked] at hb,
      fun b hb => by simp [blocked] at hb⟩
  | step a hprev ha hsingle ih =>
    have hr := hprev.reachable
    exact (turnover_after hr.ticketed ha).inLine ih hr.ticketed hr.asked hsingle

end LockManager

end HeapStore
