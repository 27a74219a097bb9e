import HeapStore.Proofs.Lock.Waiting

/-!
# Nobody is overtaken in the queue

A request that waits for a page keeps its place: what joins later stands behind it, and what leaves does
not change the order of the others. So as long as it is queued, a transaction that was not in the queue
when the request joined gets the page only as one of its holders, or together with it, when everything up
to the transaction's own request is shared.

* `mem_ahead_meanwhile`: over any run on which one of the transaction's requests is queued all the while,
  the request stays ahead of whoever was not in the queue at the start.
* `Action.Grants.renews_or_shared`: what that leaves for a step that grants the page.
* `Action.Grants.arrival_le`, `Action.Grants.renews_of_not_queued`: in orderly runs exclusive requests of
  transactions that hold nothing are granted in the order of arrival, and whoever has no request in a queue
  that others wait in is granted as a holder only.
-/

namespace HeapStore

namespace LockTable

/-- The transaction holds the page: it asks for a mode that it has, or for more as the only holder. -/
def Renews (t : LockTable) (p : PageId) (txn : TxnId) (mode : LockMode) : Prop :=
  ∃ held, t.mode? p txn = some held ∧
    (mode ≤ held ∨ mode = .exclusive ∧ ∀ u, t.holds p u = true → u = txn)

theorem renews_of_page {t : LockTable} {p : PageId} {txn : TxnId} {mode : LockMode}
    (h : (t.locks p).Renews txn mode) : t.Renews p txn mode := by
  rcases h with ⟨held, hheld, hle⟩ | ⟨⟨held, hheld, -⟩, hadmits⟩
  · exact ⟨held, hheld, .inl hle⟩
  · refine ⟨held, hheld, ?_⟩
    cases mode with
    | shared => exact .inl (by simp [LE.le])
    | exclusive =>
      refine .inr ⟨rfl, fun u hu => ?_⟩
      obtain ⟨heldByU, hheldByU⟩ := Option.isSome_iff_exists.1 hu
      by_contra hne
      exact absurd (hadmits u heldByU hheldByU hne).1 (by simp)

end LockTable

namespace LockManager

open LockTable

variable {m m' : LockManager} {x : Action} {p : PageId} {a b : TxnId} {mode modeA : LockMode}

/-! ### Steps that grant -/

/-- The page, the transaction and the mode that a step asks for. -/
def Action.asks? : Action → Option (PageId × TxnId × LockMode)
  | tryAcquire p txn mode | acquire p txn mode => some (p, txn, mode)
  | recheck b | expire b => some (b.page, b.txn, b.mode)
  | release .. | releaseAll _ => none

/-- Does the step end with the lock that it asks for? -/
def Action.succeeds (m : LockManager) : Action → Bool
  | tryAcquire p txn mode => (m.tryAcquire p txn mode).1
  | acquire p txn mode => (m.acquire p txn mode).1 = .granted
  | recheck b => (m.recheck b).1.isSome
  | expire b => (m.expire b).1.granted
  | release .. | releaseAll _ => false

/-- The step grants the page to the transaction in that mode. -/
def Action.Grants (m : LockManager) (x : Action) (p : PageId) (txn : TxnId) (mode : LockMode) : Prop :=
  x.asks? = some (p, txn, mode) ∧ x.succeeds m = true

instance (m : LockManager) (x : Action) (p : PageId) (txn : TxnId) (mode : LockMode) :
    Decidable (x.Grants m p txn mode) :=
  inferInstanceAs (Decidable (x.asks? = some (p, txn, mode) ∧ x.succeeds m = true))

/-- When the request that a step is about arrived: its ticket, or the next one if it is new. -/
def Action.arrival (m : LockManager) : Action → Nat
  | recheck b | expire b => b.ticket
  | _ => m.nextTicket

theorem Action.Grants.grantable (h : x.Grants m p b mode) : m.table.grantable p b mode = true := by
  obtain ⟨hasks, hsucceeds⟩ := h
  by_contra hg
  cases x with
  | tryAcquire q u mode' =>
    obtain ⟨rfl, rfl, rfl⟩ : q = p ∧ u = b ∧ mode' = mode := by simpa [asks?] using hasks
    simp [succeeds, LockManager.tryAcquire, LockTable.tryAcquire, hg] at hsucceeds
  | acquire q u mode' =>
    obtain ⟨rfl, rfl, rfl⟩ : q = p ∧ u = b ∧ mode' = mode := by simpa [asks?] using hasks
    simp [succeeds, LockManager.acquire, hg] at hsucceeds
  | recheck c =>
    obtain ⟨rfl, rfl, rfl⟩ : c.page = p ∧ c.txn = b ∧ c.mode = mode := by simpa [asks?] using hasks
    simp [succeeds, LockManager.recheck, hg] at hsucceeds
  | expire c =>
    obtain ⟨rfl, rfl, rfl⟩ : c.page = p ∧ c.txn = b ∧ c.mode = mode := by simpa [asks?] using hasks
    simp [succeeds, LockManager.expire, atDeadline, hg] at hsucceeds
  | release q u => simp [asks?] at hasks
  | releaseAll u => simp [asks?] at hasks

/-! ### Places are kept -/

/-- Steps of any callers lead from the one state to the other, and all the while the property holds. -/
inductive Meanwhile (P : LockManager → Prop) (m : LockManager) : LockManager → Prop
  | start : P m → Meanwhile P m m
  | step {m' : LockManager} (x : Action) :
      Meanwhile P m m' → x.Enabled m' → P (m'.after x) → Meanwhile P m (m'.after x)

theorem Meanwhile.reachable {P : LockManager → Prop} (h : Meanwhile P m m') (hm : m.Reachable) :
    m'.Reachable := by
  induction h with
  | start => exact hm
  | step x _ hx _ ih => exact ih.step x hx

theorem Meanwhile.mono {P Q : LockManager → Prop} (h : Meanwhile P m m') (hpq : ∀ s, P s → Q s) :
    Meanwhile Q m m' := by
  induction h with
  | start hp => exact .start (hpq _ hp)
  | step x _ hx hp ih => exact ih.step x hx (hpq _ hp)

theorem Turnover.mem_ahead (h : Turnover m x m') {r : LockRequest}
    (hr : r ∈ (m.table.locks p).ahead b) (hstays : r ∈ (m'.table.locks p).waiters) :
    r ∈ (m'.table.locks p).ahead b := by
  cases h with
  | nobody waiters _ _ => rwa [PageLocks.ahead_congr (waiters p)]
  | joins c _ _ waiters _ _ =>
    rw [PageLocks.ahead_congr (waiters p)]
    split
    · next hp => exact PageLocks.mem_ahead_enqueue (hp ▸ hr)
    · exact hr
  | leaves c _ _ waiters _ _ =>
    rw [PageLocks.ahead_congr (waiters p)]
    split
    · next hp =>
      subst hp
      rw [waiters, if_pos rfl] at hstays
      exact PageLocks.mem_ahead_dequeue hr (PageLocks.mem_waiters_dequeue.1 hstays).2
    · exact hr

theorem mem_ahead_meanwhile (hm : m.Reachable) {r : LockRequest} (hr : r ∈ (m.table.locks p).ahead b)
    (h : Meanwhile (fun s => r ∈ (s.table.locks p).waiters) m m') : r ∈ (m'.table.locks p).ahead b := by
  induction h with
  | start => exact hr
  | step x hprev hx hstays ih => exact (turnover_after (hprev.reachable hm).ticketed hx).mem_ahead ih hstays

theorem mem_ahead_of_acquire {ticket : Nat} (hwaits : (m.acquire p a modeA).1 = .waits ticket)
    (hne : b ≠ a) (hb : ¬ (m.table.locks p).Queued b) :
    (⟨a, modeA⟩ : LockRequest) ∈ ((m.acquire p a modeA).2.table.locks p).ahead b := by
  have hrefused : ¬ m.table.grantable p a modeA = true := fun hg => by simp [acquire, hg] at hwaits
  have hlocks : (m.acquire p a modeA).2.table.locks p = (m.table.locks p).enqueue a modeA := by
    rw [acquire, if_neg hrefused]
    exact (locks_enqueue p).trans (if_pos rfl)
  have hb' : ¬ ((m.table.locks p).enqueue a modeA).Queued b := by
    rintro ⟨r, hr, htxn⟩
    rcases PageLocks.mem_waiters_enqueue.1 hr with hr | rfl
    · exact hb ⟨r, hr, htxn⟩
    · exact hne htxn.symm
  rw [hlocks, PageLocks.ahead_of_not_queued hb']
  exact PageLocks.mem_waiters_enqueue.2 (.inr rfl)

theorem Orderly.mem_ahead_of_arrival (hm : m.Orderly) (hx : x.Enabled m) (hs : x.Single m)
    (hasks : x.asks? = some (p, b, mode)) {c : Blocked} (hc : c ∈ m.blocked) (hpage : c.page = p)
    (hlt : c.ticket < x.arrival m) : c.request ∈ (m.table.locks p).ahead b := by
  subst hpage
  have hnew : (∀ d ∈ m.blocked, ¬ (d.page = c.page ∧ d.txn = b)) →
      c.request ∈ (m.table.locks c.page).ahead b := fun hnew => by
    rw [PageLocks.ahead_of_not_queued (hm.reachable.asked.not_queued hnew)]
    exact hm.inLine.queued c hc
  cases x with
  | tryAcquire q u mode' =>
    obtain ⟨rfl, rfl, rfl⟩ : q = c.page ∧ u = b ∧ mode' = mode := by simpa [Action.asks?] using hasks
    exact hnew hs
  | acquire q u mode' =>
    obtain ⟨rfl, rfl, rfl⟩ : q = c.page ∧ u = b ∧ mode' = mode := by simpa [Action.asks?] using hasks
    exact hnew hs
  | recheck d | expire d =>
    obtain ⟨hpage, rfl, rfl⟩ : d.page = c.page ∧ d.txn = b ∧ d.mode = mode := by
      simpa [Action.asks?] using hasks
    exact hm.inLine.ahead c hc d hx hpage.symm hlt
  | release q u => simp [Action.asks?] at hasks
  | releaseAll u => simp [Action.asks?] at hasks

/-! ### What a step may grant past a request that waits -/

/-- Past a request that is ahead of it, a transaction is granted as a holder or in shared company. -/
theorem Action.Grants.renews_or_shared (h : x.Grants m p b mode) {r : LockRequest}
    (hr : r ∈ (m.table.locks p).ahead b) :
    m.table.Renews p b mode ∨
      mode = .shared ∧ (m.table.locks p).Queued b ∧ ∀ r ∈ (m.table.locks p).ahead b, r.mode = .shared := by
  by_cases hpass : (m.table.locks p).MayPass b mode
  · refine .inr (hpass.resolve_left fun hnone => ?_)
    rw [hnone] at hr
    simp at hr
  · exact .inl (renews_of_page (PageLocks.renews_of_grantable h.grantable hpass))

theorem Action.Grants.renews_of_not_queued (h : x.Grants m p b mode)
    (hb : ¬ (m.table.locks p).Queued b) (hwaits : (m.table.locks p).waiters ≠ []) :
    m.table.Renews p b mode :=
  renews_of_page (PageLocks.renews_of_grantable h.grantable (PageLocks.not_mayPass hb hwaits))

/-- When an exclusive request of a transaction without a lock on the page is granted, nobody waits there
who arrived before. -/
theorem Action.Grants.arrival_le (h : x.Grants m p b .exclusive) (hm : m.Orderly) (hx : x.Enabled m)
    (hs : x.Single m) (hfree : m.table.holds p b = false) {c : Blocked} (hc : c ∈ m.blocked)
    (hpage : c.page = p) : x.arrival m ≤ c.ticket := by
  by_contra hlt
  have hahead := hm.mem_ahead_of_arrival hx hs h.1 hc hpage (Nat.lt_of_not_le hlt)
  rcases h.renews_or_shared hahead with ⟨held, hheld, -⟩ | ⟨hshared, -⟩
  · rw [holds, hheld] at hfree
    simp at hfree
  · simp at hshared

/-- **Nobody is overtaken.** In every run: while a request of `a` is queued, a transaction `b` that was
not in the queue when the request joined is granted the page only as one of its holders, or shared, with
nothing but shared requests up to its own first one, that of `a` among them. If no transaction asks
twice for one page, exclusive requests of transactions that do not hold the page are granted in the order
of arrival, and a transaction that is not in the queue is granted as a holder while others wait. -/
theorem no_overtaking :
    (∀ (m m' : LockManager) (x : Action) (p : PageId) (a b : TxnId) (modeA mode : LockMode) (ticket : Nat),
      m.Reachable → b ≠ a → ¬ (m.table.locks p).Queued b → (m.acquire p a modeA).1 = .waits ticket →
      Meanwhile (fun s => (⟨a, modeA⟩ : LockRequest) ∈ (s.table.locks p).waiters)
        (m.acquire p a modeA).2 m' →
      x.Grants m' p b mode →
      m'.table.Renews p b mode ∨
        mode = .shared ∧ modeA = .shared ∧ (⟨a, modeA⟩ : LockRequest) ∈ (m'.table.locks p).ahead b ∧
          (m'.table.locks p).Queued b ∧ ∀ r ∈ (m'.table.locks p).ahead b, r.mode = .shared) ∧
    (∀ (m : LockManager) (x : Action) (p : PageId) (b : TxnId), m.Orderly → x.Enabled m → x.Single m →
      x.Grants m p b .exclusive → m.table.holds p b = false →
      ∀ c ∈ m.blocked, c.page = p → x.arrival m ≤ c.ticket) ∧
    ∀ (m : LockManager) (x : Action) (p : PageId) (b : TxnId) (mode : LockMode), m.Orderly →
      x.Grants m p b mode → ¬ (m.table.locks p).Queued b → (∃ c ∈ m.blocked, c.page = p) →
      m.table.Renews p b mode := by
  refine ⟨?_, fun m x p b hm hx hs h hfree c hc => h.arrival_le hm hx hs hfree hc, ?_⟩
  · intro m m' x p a b modeA mode ticket hm hne hb hwaits h hgrants
    have hm' : (m.acquire p a modeA).2.Reachable := hm.step (.acquire p a modeA) trivial
    have hahead := mem_ahead_meanwhile hm' (mem_ahead_of_acquire hwaits hne hb) h
    refine (hgrants.renews_or_shared hahead).imp_right ?_
    rintro ⟨rfl, hqueued, hall⟩
    exact ⟨rfl, hall _ hahead, hahead, hqueued, hall⟩
  · rintro m x p b mode hm hgrants hb ⟨c, hc, rfl⟩
    exact hgrants.renews_of_not_queued hb (List.ne_nil_of_mem (hm.inLine.queued c hc))

/-- A reader behind a reader is granted in its company, the first of two writers before the second, and
the only reader becomes the writer although another one waits. -/
theorem no_overtaking_among_readers_and_writers :
    (∃ m m' : LockManager, m.Reachable ∧
      Meanwhile (fun s => (⟨2, .shared⟩ : LockRequest) ∈ (s.table.locks ⟨0, 0⟩).waiters)
        (m.acquire ⟨0, 0⟩ 2 .shared).2 m' ∧
      (Action.recheck ⟨1, ⟨0, 0⟩, 3, .shared⟩).Grants m' ⟨0, 0⟩ 3 .shared ∧
      m'.table.holds ⟨0, 0⟩ 3 = false ∧ (⟨2, .shared⟩ : LockRequest) ∈ (m'.table.locks ⟨0, 0⟩).ahead 3) ∧
    (∃ m : LockManager, m.Orderly ∧ (⟨1, ⟨0, 0⟩, 3, .exclusive⟩ : Blocked) ∈ m.blocked ∧
      (Action.recheck ⟨0, ⟨0, 0⟩, 2, .exclusive⟩).Grants m ⟨0, 0⟩ 2 .exclusive ∧
      (Action.recheck ⟨0, ⟨0, 0⟩, 2, .exclusive⟩).arrival m ≤ 1) ∧
    ∃ m : LockManager, m.Orderly ∧ (⟨0, ⟨0, 0⟩, 2, .exclusive⟩ : Blocked) ∈ m.blocked ∧
      (Action.tryAcquire ⟨0, 0⟩ 1 .exclusive).Grants m ⟨0, 0⟩ 1 .exclusive ∧
      m.table.Renews ⟨0, 0⟩ 1 .exclusive := by
  refine ⟨?_, ?_, ?_⟩
  · have h1 := Reachable.start.step (.tryAcquire ⟨0, 0⟩ 1 .exclusive) trivial
    have w1 : Meanwhile (fun s => (⟨2, .shared⟩ : LockRequest) ∈ (s.table.locks ⟨0, 0⟩).waiters)
        ((LockManager.after {} (.tryAcquire ⟨0, 0⟩ 1 .exclusive)).acquire ⟨0, 0⟩ 2 .shared).2 _ :=
      .start (by decide +kernel)
    have w2 := w1.step (.acquire ⟨0, 0⟩ 3 .shared) trivial (by decide +kernel)
    have w3 := w2.step (.release ⟨0, 0⟩ 1) trivial (by decide +kernel)
    refine ⟨_, _, h1, w3, by decide +kernel, by decide +kernel, ?_⟩
    rcases no_overtaking.1 _ _ (.recheck ⟨1, ⟨0, 0⟩, 3, .shared⟩) ⟨0, 0⟩ 2 3 .shared .shared 0 h1 (by decide)
      (by decide +kernel) (by decide +kernel) w3 (by decide +kernel) with ⟨held, hheld, -⟩ | ⟨-, -, hahead, -⟩
    · exact absurd (Option.isSome_of_eq_some hheld) (by decide +kernel)
    · exact hahead
  · have h1 := Orderly.start.step (.tryAcquire ⟨0, 0⟩ 1 .exclusive) trivial (by decide +kernel)
    have h2 := h1.step (.acquire ⟨0, 0⟩ 2 .exclusive) trivial (by decide +kernel)
    have h3 := h2.step (.acquire ⟨0, 0⟩ 3 .exclusive) trivial (by decide +kernel)
    have h4 := h3.step (.release ⟨0, 0⟩ 1) trivial trivial
    exact ⟨_, h4, by decide +kernel, by decide +kernel,
      no_overtaking.2.1 _ (.recheck ⟨0, ⟨0, 0⟩, 2, .exclusive⟩) ⟨0, 0⟩ 2 h4 (by decide +kernel) trivial
        (by decide +kernel) (by decide +kernel) ⟨1, ⟨0, 0⟩, 3, .exclusive⟩ (by decide +kernel) rfl⟩
  · have h1 := Orderly.start.step (.tryAcquire ⟨0, 0⟩ 1 .shared) trivial (by decide +kernel)
    have h2 := h1.step (.acquire ⟨0, 0⟩ 2 .exclusive) trivial (by decide +kernel)
    exact ⟨_, h2, by decide +kernel, by decide +kernel,
      no_overtaking.2.2 _ (.tryAcquire ⟨0, 0⟩ 1 .exclusive) ⟨0, 0⟩ 1 .exclusive h2 (by decide +kernel)
        (by decide +kernel) ⟨⟨0, ⟨0, 0⟩, 2, .exclusive⟩, by decide +kernel, rfl⟩⟩

end LockManager

end HeapStore
