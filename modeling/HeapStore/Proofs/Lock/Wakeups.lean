import HeapStore.Proofs.Lock.Waiting

/-!
# No wake-up is lost

A blocked acquire that has been woken and has not looked since is `awake`. A grant at once and a request
that joins a queue wake nobody, and a shared request that joins behind woken ones may be grantable while
its acquire falls asleep. So it is not true that whoever can be granted is awake; what holds is weaker
and enough:

* `Alert`: if a blocked acquire can be granted, then one of the same page can that is awake. A woken
  acquire that can be granted will be when it looks, and then it wakes all others.
* `Alert.after`: in orderly runs every step keeps this. A release, an acquire that ends and a timeout wake
  everybody (`Alert.after_of_frees`); a refusal puts only an acquire to sleep that cannot be granted
  (`Alert.recheck`); the silent steps enable nobody, the request that joined apart (`Alert.grant`,
  `Alert.joined`).
* At rest, when nobody is awake, nobody can be granted (`Orderly.no_lost_wakeup`).
-/

namespace HeapStore.LockManager

open LockTable

variable {m : LockManager} {b : Blocked}

/-- No blocked acquire can be granted. -/
def AtRest (m : LockManager) : Prop := ∀ b ∈ m.blocked, ¬ m.table.CanGo b

/-- Where a blocked acquire can be granted, one of the same page can that is awake. -/
def Alert (m : LockManager) : Prop :=
  ∀ b ∈ m.blocked, m.table.CanGo b → ∃ w ∈ m.awake, w.page = b.page ∧ m.table.CanGo w

theorem Alert.atRest (h : m.Alert) (hawake : m.awake = []) : m.AtRest := by
  intro b hb hgo
  obtain ⟨w, hw, -⟩ := h b hb hgo
  rw [hawake] at hw
  simp at hw

theorem AtRest.alert (h : m.AtRest) : m.Alert := fun b hb hgo => absurd hgo (h b hb)

theorem alert_of_all_awake (h : m.asleep = []) : m.Alert := by
  intro b hb hgo
  rcases mem_blocked.1 hb with hb | hb
  · simp [h] at hb
  · exact ⟨b, hb, rfl, hgo⟩

theorem Alert.on_page (h : m.Alert) {m' : LockManager} (p : PageId)
    (hlocks : ∀ q, q ≠ p → m'.table.locks q = m.table.locks q) (hawake : m'.awake = m.awake)
    (hblocked : ∀ b ∈ m'.blocked, b.page ≠ p → b ∈ m.blocked)
    (hpage : ∀ b ∈ m'.blocked, b.page = p → m'.table.CanGo b → ∃ w ∈ m.awake, w.page = p ∧ m'.table.CanGo w) :
    m'.Alert := by
  intro b hb hgo
  rw [hawake]
  by_cases hp : b.page = p
  · rw [hp]
    exact hpage b hb hp hgo
  · obtain ⟨w, hw, hwpage, hwgo⟩ := h b (hblocked b hb hp) ((canGo_congr (hlocks b.page hp)).1 hgo)
    exact ⟨w, hw, hwpage, (canGo_congr (hlocks w.page (hwpage ▸ hp))).2 hwgo⟩

/-- An acquire that looks: if it is refused it cannot be granted, and if it is granted all are woken. -/
theorem Alert.recheck (h : m.Alert) (hm : m.Ticketed) (hb : b ∈ m.blocked) : (m.recheck b).2.Alert := by
  by_cases hgo : m.table.CanGo b
  · rw [recheck_of_granted hgo]
    exact alert_of_all_awake rfl
  · intro c hc hgoc
    rw [hm.mem_recheck_of_refused hb hgo] at hc
    rw [recheck_of_refused hgo] at hgoc ⊢
    obtain ⟨w, hw, hpage, hwgo⟩ := h c hc hgoc
    have hne : w ≠ b := fun heq => hgo (heq ▸ hwgo)
    have hticket : w.ticket ≠ b.ticket := fun heq => hne (hm.inj w (mem_blocked.2 (.inr hw)) b hb heq)
    exact ⟨w, mem_without.2 ⟨hw, hticket⟩, hpage, hwgo⟩

variable {p : PageId} {txn : TxnId} {mode : LockMode}

theorem Alert.grant (h : m.Alert) (hm : m.Orderly) (hg : m.table.grantable p txn mode = true)
    (hsingle : ∀ b ∈ m.blocked, ¬ (b.page = p ∧ b.txn = txn)) :
    ({ m with table := m.table.grant p txn mode } : LockManager).Alert := by
  refine h.on_page p (fun q hq => by rw [locks_grant, if_neg hq]) rfl (fun _ hb _ => hb) ?_
  rintro b hb rfl hgo
  have hreach := hm.reachable
  have hgrant : (m.table.grant b.page txn mode).locks b.page = (m.table.locks b.page).grant txn mode := by
    rw [locks_grant, if_pos rfl]
  -- Somebody waits for the page, so the transaction was granted as one of its holders.
  have hwaits : (m.table.locks b.page).waiters ≠ [] := List.ne_nil_of_mem (hm.inLine.queued b hb)
  have hrenews := PageLocks.renews_of_grantable hg
    (PageLocks.not_mayPass (hreach.asked.not_queued hsingle) hwaits)
  have hne : b.txn ≠ txn := fun htxn => hsingle b hb ⟨rfl, htxn⟩
  rw [CanGo, LockTable.grantable, hgrant] at hgo
  have hsame : (m.table.locks b.page).grant txn mode = m.table.locks b.page :=
    (PageLocks.grant_of_renews (hreach.safe b.page) hrenews hne).resolve_right (by rw [hgo]; simp)
  rw [hsame] at hgo
  obtain ⟨w, hw, hpage, hwgo⟩ := h b hb hgo
  refine ⟨w, hw, hpage, ?_⟩
  rw [CanGo, LockTable.grantable, hpage, hgrant, hsame, ← hpage]
  exact hwgo

/-- The manager after a refused acquire: its request joins the queue, and it falls asleep. -/
def joined (m : LockManager) (b : Blocked) : LockManager :=
  { m.sleep b with table := m.table.enqueue b.page b.txn b.mode, nextTicket := m.nextTicket + 1 }

theorem grantable_joined {c : Blocked} (hpage : c.page = b.page) :
    (m.joined b).table.CanGo c ↔ ((m.table.locks b.page).enqueue b.txn b.mode).grantable c.txn c.mode = true := by
  have henqueue : (m.table.enqueue b.page b.txn b.mode).locks b.page =
      (m.table.locks b.page).enqueue b.txn b.mode := by
    rw [locks_enqueue, if_pos rfl]
  rw [CanGo, LockTable.grantable, hpage, joined, henqueue]

/-- Where somebody can go once a refused request has joined, somebody could before. -/
theorem exists_canGo_of_joined (hm : m.Asked) (hrefused : ¬ m.table.CanGo b)
    (hsingle : ∀ c ∈ m.blocked, ¬ (c.page = b.page ∧ c.txn = b.txn)) {c : Blocked}
    (hc : c ∈ (m.joined b).blocked) (hpage : c.page = b.page) (hgo : (m.joined b).table.CanGo c) :
    ∃ d ∈ m.blocked, d.page = b.page ∧ m.table.CanGo d := by
  rw [grantable_joined hpage] at hgo
  rcases mem_sleep.1 hc with hc | rfl
  · have hne : b.txn ≠ c.txn := fun htxn => hsingle c hc ⟨hpage, htxn.symm⟩
    exact ⟨c, hc, hpage, by rw [CanGo, hpage]; exact PageLocks.grantable_of_enqueue hne hgo⟩
  · obtain ⟨r, hr, hrgo⟩ :=
      PageLocks.exists_grantable_ahead (hm.not_queued hsingle) (Bool.eq_false_iff.2 hrefused) hgo
    obtain ⟨d, hd, hdpage, rfl⟩ := hm c.page r hr
    exact ⟨d, hd, hdpage, by rw [CanGo, hdpage]; exact hrgo⟩

theorem Alert.joined (h : m.Alert) (hm : m.Orderly) (hrefused : ¬ m.table.CanGo b)
    (hsingle : ∀ c ∈ m.blocked, ¬ (c.page = b.page ∧ c.txn = b.txn)) : (m.joined b).Alert := by
  refine h.on_page b.page (fun q hq => (locks_enqueue q).trans (if_neg hq)) rfl (fun c hc hpage => ?_)
    fun c hc hpage hgo => ?_
  · exact (mem_sleep.1 hc).resolve_right fun heq => hpage (heq ▸ rfl)
  · obtain ⟨d, hd, hdpage, hdgo⟩ := exists_canGo_of_joined hm.reachable.asked hrefused hsingle hc hpage hgo
    obtain ⟨w, hw, hwpage, hwgo⟩ := h d hd hdgo
    rw [hdpage] at hwpage
    have hqueued : (m.table.locks b.page).Queued w.txn :=
      ⟨w.request, hwpage ▸ hm.inLine.queued w (mem_blocked.2 (.inr hw)), rfl⟩
    refine ⟨w, hw, hwpage, ?_⟩
    rw [grantable_joined hwpage, PageLocks.grantable_enqueue_of_queued hqueued, ← hwpage]
    exact hwgo

/-- Does the step take away a lock or a request? -/
def Action.Frees : Action → Prop
  | expire _ | release .. | releaseAll _ => True
  | tryAcquire .. | acquire .. | recheck _ => False

/-- A step that takes something away wakes all; the release of a page that is not held changes nothing. -/
theorem Alert.after_of_frees (h : m.Alert) {a : Action} (hfrees : a.Frees) : (m.after a).Alert := by
  cases a with
  | expire b => exact alert_of_all_awake rfl
  | release p txn =>
    simp only [LockManager.after, LockManager.release]
    split
    · exact alert_of_all_awake rfl
    · next hnot =>
      have hsame : ∀ b : Blocked, (m.table.release p txn).2.CanGo b ↔ m.table.CanGo b := fun _ =>
        canGo_congr (locks_release_of_free (Bool.eq_false_iff.2 hnot) _)
      intro b hb hgo
      obtain ⟨w, hw, hpage, hwgo⟩ := h b hb ((hsame b).1 hgo)
      exact ⟨w, hw, hpage, (hsame w).2 hwgo⟩
  | releaseAll txn => exact alert_of_all_awake rfl
  | _ => exact absurd hfrees not_false

theorem Alert.after (h : m.Alert) (hm : m.Orderly) {a : Action} (ha : a.Enabled m) (hs : a.Single m) :
    (m.after a).Alert := by
  cases a with
  | tryAcquire p txn mode =>
    simp only [LockManager.after, LockManager.tryAcquire, LockTable.tryAcquire]
    split
    · next hg => exact h.grant hm hg hs
    · exact h
  | acquire p txn mode =>
    simp only [LockManager.after, LockManager.acquire]
    split
    · next hg => exact h.grant hm hg hs
    · next hg => exact h.joined (b := ⟨m.nextTicket, p, txn, mode⟩) hm hg hs
  | recheck b => exact h.recheck hm.reachable.ticketed ha
  | _ => exact h.after_of_frees trivial

theorem Orderly.alert (h : m.Orderly) : m.Alert := by
  induction h with
  | start => exact alert_of_all_awake rfl
  | step a hm ha hs ih => exact ih.after hm ha hs

/-- **No wake-up is lost.** Whatever steps were made, no transaction asking twice for one page: once every
blocked acquire that was woken has looked, none that waits can be granted, and nobody waits for a page
without holders. -/
theorem Orderly.no_lost_wakeup (h : m.Orderly) (hrest : m.awake = []) :
    (∀ b ∈ m.blocked, m.table.grantable b.page b.txn b.mode = false) ∧
      ∀ p, (m.table.locks p).holders.isEmpty = true → m.table.waitingCount p = 0 := by
  have hno : ∀ b ∈ m.blocked, m.table.grantable b.page b.txn b.mode = false := fun b hb =>
    Bool.eq_false_iff.2 (h.alert.atRest hrest b hb)
  refine ⟨hno, fun p hfree => ?_⟩
  have hempty : (m.table.locks p).waiters = [] := by
    by_contra hsome
    obtain ⟨r, rest, hwaiters⟩ := List.exists_cons_of_ne_nil hsome
    obtain ⟨b, hb, rfl, rfl⟩ := h.reachable.asked p r (hwaiters ▸ List.mem_cons_self)
    -- The request at the head of the queue of a page that nobody holds can be granted.
    have hadmits : (m.table.locks b.page).Admits b.txn b.mode := by
      intro u held hu
      rw [Std.ExtTreeMap.isEmpty_iff.1 hfree] at hu
      simp at hu
    have hahead : (m.table.locks b.page).ahead b.txn = [] := by
      simp [PageLocks.ahead, hwaiters, Blocked.request]
    have hgo : m.table.grantable b.page b.txn b.mode = true :=
      PageLocks.grantable_iff.2 (.inr ⟨hadmits, .inr (.inl hahead)⟩)
    exact absurd hgo (by rw [hno b hb]; simp)
  rw [waitingCount, hempty, List.length_nil]

/-- A reader joins behind one that was woken and falls asleep although it can be granted; both have the
page before the writer behind them goes back to sleep. -/
theorem no_lost_wakeup_behind_woken_reader :
    ∃ m : LockManager, m.Orderly ∧ m.awake = [] ∧ m.blocked = [⟨2, ⟨0, 0⟩, 4, .exclusive⟩] ∧
      m.table.grantable ⟨0, 0⟩ 4 .exclusive = false ∧ m.table.holds ⟨0, 0⟩ 3 = true ∧
      m.table.waitingCount ⟨0, 1⟩ = 0 := by
  have h1 := Orderly.start.step (.tryAcquire ⟨0, 0⟩ 1 .exclusive) trivial (by decide +kernel)
  have h2 := h1.step (.acquire ⟨0, 0⟩ 2 .shared) trivial (by decide +kernel)
  have h3 := h2.step (.release ⟨0, 0⟩ 1) trivial trivial
  have h4 := h3.step (.acquire ⟨0, 0⟩ 3 .shared) trivial (by decide +kernel)
  have h5 := h4.step (.acquire ⟨0, 0⟩ 4 .exclusive) trivial (by decide +kernel)
  have h6 := h5.step (.recheck ⟨0, ⟨0, 0⟩, 2, .shared⟩) (by decide +kernel) trivial
  have h7 := h6.step (.recheck ⟨1, ⟨0, 0⟩, 3, .shared⟩) (by decide +kernel) trivial
  have h8 := h7.step (.recheck ⟨2, ⟨0, 0⟩, 4, .exclusive⟩) (by decide +kernel) trivial
  exact ⟨_, h8, by decide +kernel, by decide +kernel,
    (h8.no_lost_wakeup (by decide +kernel)).1 ⟨2, ⟨0, 0⟩, 4, .exclusive⟩ (by decide +kernel),
    by decide +kernel, (h8.no_lost_wakeup (by decide +kernel)).2 ⟨0, 1⟩ (by decide +kernel)⟩

end HeapStore.LockManager
