import HeapStore.Proofs.Lock.Cascade
import HeapStore.Proofs.Lock.Index
import HeapStore.Proofs.Lock.Overtaking
import Mathlib.Data.List.Perm.Subperm

/-!
# Which requests leave the queue

An acquire that waits has put one request into the queue of its page. When its wait ends, with the lock or
without it, the queue is searched by transaction: every request of the transaction for that page leaves,
also that of another acquire that goes on waiting.

* **Lines.** In every reachable state the queue of a page is made of the requests of some of the acquires
  that wait for it, oldest first (`Line`, `Reachable.exists_line`).
* **While a transaction asks once for the page**, all its acquires stand in the line, so each takes out its
  own request and no other (`exists_line_meanwhile`, `Line.leaves`).
* `withdrawal_by_transaction` puts this together, with the number of requests that wait and with acquires
  that time out undisturbed; `withdrawn_with_another` is the case in which a request is lost.
-/

namespace HeapStore

namespace LockManager

open LockTable

variable {m m₀ m' : LockManager} {x : Action} {p : PageId} {txn : TxnId} {mode : LockMode} {b : Blocked}
  {line : List Blocked}

/-! ### Every acquire waits once -/

theorem perm_wakeAll (m : LockManager) : m.wakeAll.blocked.Perm m.blocked := by
  show (m.awake ++ m.asleep).Perm (m.asleep ++ m.awake)
  exact List.perm_append_comm

theorem perm_sleep (m : LockManager) (b : Blocked) : (m.sleep b).blocked.Perm (b :: m.blocked) := by
  show ((m.asleep ++ [b]) ++ m.awake).Perm (b :: (m.asleep ++ m.awake))
  rw [List.append_assoc]
  exact List.perm_middle

theorem blocked_unblock (m : LockManager) (ticket : Nat) :
    (m.unblock ticket).blocked = without ticket m.blocked := by
  simp only [blocked, unblock, without, List.filter_append]

theorem nodup_unblock (h : m.blocked.Nodup) (ticket : Nat) : (m.unblock ticket).blocked.Nodup := by
  rw [blocked_unblock]
  exact h.filter _

theorem nodup_wakeAll (h : m.blocked.Nodup) : m.wakeAll.blocked.Nodup := m.perm_wakeAll.nodup_iff.2 h

theorem nodup_sleep (h : m.blocked.Nodup) (hb : b ∉ m.blocked) : (m.sleep b).blocked.Nodup :=
  (m.perm_sleep b).nodup_iff.2 (List.nodup_cons.2 ⟨hb, h⟩)

theorem nodup_after (ht : m.Ticketed) (h : m.blocked.Nodup) : (m.after x).blocked.Nodup := by
  cases x with
  | tryAcquire p txn mode => exact h
  | acquire p txn mode =>
    simp only [after, acquire]
    split
    · exact h
    · have hnew : (⟨m.nextTicket, p, txn, mode⟩ : Blocked) ∉ m.blocked := fun hmem =>
        absurd (ht.lt _ hmem) (Nat.lt_irrefl _)
      exact nodup_sleep h hnew
  | recheck b =>
    simp only [after, recheck]
    split
    · exact nodup_wakeAll (nodup_unblock h b.ticket)
    · refine nodup_sleep (nodup_unblock h b.ticket) fun hmem => ?_
      rw [blocked_unblock] at hmem
      exact (mem_without.1 hmem).2 rfl
  | expire b => exact nodup_wakeAll (nodup_unblock h b.ticket)
  | release p txn =>
    simp only [after, release]
    split
    · exact nodup_wakeAll h
    · exact h
  | releaseAll txn => exact nodup_wakeAll h

theorem Reachable.nodup_blocked (h : m.Reachable) : m.blocked.Nodup := by
  induction h with
  | start => exact List.nodup_nil
  | step a hprev _ ih => exact nodup_after hprev.ticketed ih

/-! ### Lines -/

/-- The acquires, oldest first, whose requests make up the queue of the page. -/
structure Line (m : LockManager) (p : PageId) (line : List Blocked) : Prop where
  mem : ∀ b ∈ line, b ∈ m.blocked ∧ b.page = p
  ordered : line.Pairwise (·.ticket < ·.ticket)
  waiters : (m.table.locks p).waiters = line.map Blocked.request

theorem Line.nodup (hl : m.Line p line) : line.Nodup :=
  hl.ordered.imp fun hlt heq => absurd (heq ▸ hlt) (Nat.lt_irrefl _)

/-- Every acquire of the transaction that waits for the page stands in the line. -/
def Stands (m : LockManager) (p : PageId) (txn : TxnId) (line : List Blocked) : Prop :=
  ∀ b ∈ m.blocked, b.page = p → b.txn = txn → b ∈ line

/-- At most one acquire of the transaction waits for the page. -/
def AsksOnce (m : LockManager) (p : PageId) (txn : TxnId) : Prop :=
  ∀ b ∈ m.blocked, ∀ c ∈ m.blocked, b.page = p → c.page = p → b.txn = txn → c.txn = txn → b = c

/-- The step ends the acquire's wait, with the lock or without it. -/
def Action.Ends (m : LockManager) (b : Blocked) (x : Action) : Prop :=
  x = .expire b ∨ x = .recheck b ∧ m.table.CanGo b

/-- The line without the acquires that lose their requests when the one ends. -/
def staying (b : Blocked) (line : List Blocked) : List Blocked :=
  line.filter fun c => ¬ (c.page = b.page ∧ c.txn = b.txn)

theorem mem_staying {c : Blocked} : c ∈ staying b line ↔ c ∈ line ∧ ¬ (c.page = b.page ∧ c.txn = b.txn) := by
  simp only [staying, List.mem_filter, decide_eq_true_eq]

theorem map_request_staying (hpage : ∀ c ∈ line, c.page = p) :
    (staying b line).map Blocked.request =
      if p = b.page then (line.map Blocked.request).filter (·.txn ≠ b.txn) else line.map Blocked.request := by
  split
  · next hp =>
    rw [List.filter_map]
    refine congrArg _ (List.filter_congr fun c hc => ?_)
    by_cases htxn : c.txn = b.txn <;> simp [Blocked.request, hpage c hc, hp, htxn]
  · next hp =>
    refine congrArg _ (List.filter_eq_self.2 fun c hc => ?_)
    simp [hpage c hc, hp]

theorem Line.staying (hl : m.Line p line)
    (hblocked : ∀ c, c ∈ m'.blocked ↔ c ∈ m.blocked ∧ c ≠ b)
    (hwaiters : ∀ q, (m'.table.locks q).waiters =
      (if q = b.page then (m.table.locks b.page).dequeue b.txn else m.table.locks q).waiters) :
    m'.Line p (staying b line) where
  mem c hc := by
    obtain ⟨hc, hstays⟩ := mem_staying.1 hc
    obtain ⟨hmem, hpage⟩ := hl.mem c hc
    refine ⟨(hblocked c).2 ⟨hmem, ?_⟩, hpage⟩
    rintro rfl
    exact hstays ⟨rfl, rfl⟩
  ordered := hl.ordered.filter _
  waiters := by
    rw [map_request_staying fun c hc => (hl.mem c hc).2, hwaiters]
    split
    · next hp => rw [← hp, PageLocks.dequeue, hl.waiters]
    · exact hl.waiters

/-- A step leads from line to line, and who asks once for the page keeps its place. -/
theorem Turnover.exists_line (h : Turnover m x m') (ht : m.Ticketed) (hl : m.Line p line) :
    ∃ line', m'.Line p line' ∧ ∀ txn, m.AsksOnce p txn → m.Stands p txn line → m'.Stands p txn line' := by
  cases h with
  | nobody waiters blocked _ =>
    refine ⟨line, ⟨fun c hc => (hl.mem c hc).imp_left (blocked c).2, hl.ordered, ?_⟩, fun txn _ hall c hc => ?_⟩
    · rw [waiters, hl.waiters]
    · exact hall c ((blocked c).1 hc)
  | joins d _ ticket waiters blocked _ =>
    by_cases hp : p = d.page
    · refine ⟨line ++ [d], ⟨fun c hc => ?_, ?_, ?_⟩, fun txn _ hall c hc hpage htxn => ?_⟩
      · rcases List.mem_append.1 hc with hc | hc
        · exact (hl.mem c hc).imp_left fun hmem => (blocked c).2 (.inl hmem)
        · obtain rfl := List.mem_singleton.1 hc
          exact ⟨(blocked c).2 (.inr rfl), hp.symm⟩
      · refine List.pairwise_append.2 ⟨hl.ordered, List.pairwise_singleton .., fun c hc e he => ?_⟩
        obtain rfl := List.mem_singleton.1 he
        exact ticket ▸ ht.lt c (hl.mem c hc).1
      · rw [waiters, if_pos hp, PageLocks.enqueue, ← hp, hl.waiters, List.map_append]
        rfl
      · rcases (blocked c).1 hc with hc | rfl
        · exact List.mem_append_left _ (hall c hc hpage htxn)
        · exact List.mem_append_right _ (List.mem_singleton.2 rfl)
    · refine ⟨line, ⟨fun c hc => ?_, hl.ordered, ?_⟩, fun txn _ hall c hc hpage htxn => ?_⟩
      · exact (hl.mem c hc).imp_left fun hmem => (blocked c).2 (.inl hmem)
      · rw [waiters, if_neg hp, hl.waiters]
      · rcases (blocked c).1 hc with hc | rfl
        · exact hall c hc hpage htxn
        · exact absurd hpage.symm hp
  | leaves d _ hd waiters blocked _ =>
    refine ⟨LockManager.staying d line, hl.staying blocked waiters, fun txn hone hall c hc hpage htxn => ?_⟩
    obtain ⟨hc, hne⟩ := (blocked c).1 hc
    refine mem_staying.2 ⟨hall c hc hpage htxn, fun hsame => hne ?_⟩
    exact hone c hc d hd hpage (hsame.1 ▸ hpage) htxn (hsame.2 ▸ htxn)

theorem Reachable.exists_line (h : m.Reachable) (p : PageId) : ∃ line, m.Line p line := by
  induction h with
  | start => exact ⟨[], ⟨fun c hc => by simp at hc, .nil, by simp [locks]⟩⟩
  | step a hprev ha ih =>
    obtain ⟨line, hl⟩ := ih
    obtain ⟨line', hl', -⟩ := (turnover_after hprev.ticketed ha).exists_line hprev.ticketed hl
    exact ⟨line', hl'⟩

/-- Transactions that did not wait for the page at the start and have asked once for it ever since stand in
the line with all their acquires. -/
theorem exists_line_meanwhile {asking : TxnId → Prop} (hm : m₀.Reachable)
    (hnone : ∀ c ∈ m₀.blocked, c.page = p → ¬ asking c.txn)
    (h : Meanwhile (fun s => ∀ txn, asking txn → s.AsksOnce p txn) m₀ m) :
    (∀ txn, asking txn → m.AsksOnce p txn) ∧
      ∃ line, m.Line p line ∧ ∀ txn, asking txn → m.Stands p txn line := by
  induction h with
  | start hone =>
    obtain ⟨line, hl⟩ := hm.exists_line p
    exact ⟨hone, line, hl, fun txn htxn c hc hpage heq => absurd (heq ▸ htxn) (hnone c hc hpage)⟩
  | step a hprev ha hone ih =>
    obtain ⟨hbefore, line, hl, hall⟩ := ih
    have ht := (hprev.reachable hm).ticketed
    obtain ⟨line', hl', hkeep⟩ := (turnover_after ht ha).exists_line ht hl
    exact ⟨hone, line', hl', fun txn htxn => hkeep txn (hbefore txn htxn) (hall txn htxn)⟩

/-- In orderly runs no transaction ever asks twice. -/
theorem Orderly.meanwhile_asksOnce (h : m.Orderly) (p : PageId) :
    Meanwhile (fun s => ∀ txn, s.AsksOnce p txn) {} m := by
  induction h with
  | start => exact .start fun txn b hb => by simp [blocked] at hb
  | step a hprev ha hsingle ih =>
    refine ih.step a ha fun txn b hb c hc hb' hc' hbt hct => ?_
    exact (hprev.step a ha hsingle).inLine.onePerPage b hb c hc (hb'.trans hc'.symm) (hbt.trans hct.symm)

/-! ### What an acquire takes along -/

theorem turnover_ends (hm : m.Ticketed) (hb : b ∈ m.blocked) (hx : x.Ends m b) :
    (∀ c, c ∈ (m.after x).blocked ↔ c ∈ m.blocked ∧ c ≠ b) ∧
      ∀ q, ((m.after x).table.locks q).waiters =
        (if q = b.page then (m.table.locks b.page).dequeue b.txn else m.table.locks q).waiters := by
  have hleave : ∀ c, c ∈ ((m.unblock b.ticket).wakeAll).blocked ↔ c ∈ m.blocked ∧ c ≠ b := fun _ =>
    mem_wakeAll.trans (hm.mem_unblock hb)
  rcases hx with rfl | ⟨rfl, hgo⟩
  · exact ⟨hleave, waiters_atDeadline⟩
  · rw [after, recheck_of_granted hgo]
    exact ⟨hleave, waiters_withdraw_grant⟩

/-- The only acquire of its transaction takes its own request out of the line. -/
theorem Line.leaves (hl : m.Line b.page line) (hm : m.Ticketed) (hline : b ∈ line)
    (hone : m.AsksOnce b.page b.txn) (hx : x.Ends m b) :
    ∃ before behind, m.Line b.page (before ++ b :: behind) ∧ (m.after x).Line b.page (before ++ behind) := by
  obtain ⟨before, behind, rfl⟩ := List.append_of_mem hline
  have hb := (hl.mem b hline).1
  obtain ⟨hblocked, hwaiters⟩ := turnover_ends hm hb hx
  have hdistinct : b ∉ before ++ behind := (List.nodup_cons.1 (List.perm_middle.nodup_iff.1 hl.nodup)).1
  have hothers : ∀ c ∈ before ++ behind, ¬ (c.page = b.page ∧ c.txn = b.txn) := by
    rintro c hc ⟨hpage, htxn⟩
    have hmem : c ∈ before ++ b :: behind := by
      simp only [List.mem_append, List.mem_cons] at hc ⊢
      tauto
    obtain rfl := hone c (hl.mem c hmem).1 b hb hpage rfl htxn rfl
    exact hdistinct hc
  have hstaying : LockManager.staying b (before ++ b :: behind) = before ++ behind := by
    have hkeep : ∀ xs, (∀ c ∈ xs, c ∈ before ++ behind) → LockManager.staying b xs = xs := fun xs hxs =>
      List.filter_eq_self.2 fun c hc => decide_eq_true (hothers c (hxs c hc))
    have happend : LockManager.staying b (before ++ b :: behind) =
        LockManager.staying b before ++ LockManager.staying b behind := by
      simp [LockManager.staying]
    rw [happend, hkeep before fun c => List.mem_append_left _, hkeep behind fun c => List.mem_append_right _]
  exact ⟨before, behind, hl, hstaying ▸ hl.staying hblocked hwaiters⟩

/-! ### How many requests wait -/

/-- The acquires that wait for the page. -/
def waitingFor (m : LockManager) (p : PageId) : List Blocked := m.blocked.filter (·.page = p)

theorem mem_waitingFor : b ∈ m.waitingFor p ↔ b ∈ m.blocked ∧ b.page = p := by
  simp [waitingFor]

theorem Line.waitingCount (hl : m.Line p line) : m.table.waitingCount p = line.length := by
  rw [LockTable.waitingCount, hl.waiters, List.length_map]

theorem Line.waitingCount_le (hl : m.Line p line) : m.table.waitingCount p ≤ (m.waitingFor p).length := by
  rw [hl.waitingCount]
  exact (List.Nodup.subperm hl.nodup fun c hc => mem_waitingFor.2 (hl.mem c hc)).length_le

theorem Line.waitingCount_eq (hl : m.Line p line) (hm : m.Reachable)
    (hall : ∀ txn, m.Stands p txn line) : m.table.waitingCount p = (m.waitingFor p).length := by
  refine Nat.le_antisymm hl.waitingCount_le ?_
  rw [hl.waitingCount]
  refine (List.Nodup.subperm (hm.nodup_blocked.filter _) fun c hc => ?_).length_le
  obtain ⟨hmem, hpage⟩ := mem_waitingFor.1 hc
  exact hall c.txn c hmem hpage rfl

/-! ### Acquires that time out undisturbed -/

theorem acquireUndisturbed_error {e : StorageError} (hm : m.Reachable)
    (h : m.acquireUndisturbed p txn mode = (.error e, m')) :
    e = .transactionAborted txn p ∧ m'.table = m.table.withdraw p txn := by
  unfold acquireUndisturbed acquire at h
  by_cases hg : m.table.grantable p txn mode = true
  · simp [hg] at h
  · simp only [hg, Bool.false_eq_true, if_false, expire, atDeadline] at h
    split at h
    · simp [Ended.result] at h
    · obtain ⟨herror, rfl⟩ := Prod.mk.inj h
      have htable : (m.table.enqueue p txn mode).withdraw p txn = m.table.withdraw p txn := by
        refine Coherent.ext ((hm.coherent.enqueue p txn mode).withdraw p txn) (hm.coherent.withdraw p txn) fun q => ?_
        rw [locks_withdraw, locks_withdraw, locks_enqueue, locks_enqueue, if_pos rfl, PageLocks.dequeue_enqueue]
        split <;> rfl
      exact ⟨by simpa [Ended.result] using herror.symm, htable⟩

theorem withdraw_eq_self_iff (hm : m.Reachable) :
    m.table.withdraw p txn = m.table ↔ ¬ (m.table.locks p).Queued txn := by
  constructor
  · rintro h ⟨r, hr, htxn⟩
    rw [← h, locks_withdraw, if_pos rfl] at hr
    exact (PageLocks.mem_waiters_dequeue.1 hr).2 htxn
  · intro hq
    refine Coherent.ext (hm.coherent.withdraw p txn) hm.coherent fun q => ?_
    rw [locks_withdraw]
    split
    · next hqp =>
      subst hqp
      refine PageLocks.ext_holders (fun _ => rfl) (List.filter_eq_self.2 fun r hr => ?_)
      simpa using fun htxn => hq ⟨r, hr, htxn⟩
    · rfl

/-! ### The result -/

/-- **Requests are withdrawn by transaction.** An acquire that ends its wait takes out of the queue of its page
all requests of its transaction, leaves the others in their order, and touches no other queue; it takes out
its own request alone exactly when the queue holds no other of its transaction. So the queue of a page
belongs to acquires that wait for it, each at most once, in the order of arrival, and its length is at most
their number. A transaction that has never had two acquires waiting for the page, since it last had none,
loses exactly the request of the acquire that ends; if that is so for every transaction, the count is the
number of acquires that wait. An acquire that times out undisturbed leaves the lock table as it found it,
unless it found a request of its transaction in the queue. -/
theorem withdrawal_by_transaction (hm : m.Reachable) (p : PageId) :
    (∀ (x : Action) (b : Blocked), b ∈ m.blocked → b.page = p → x.Ends m b →
      (∀ c, c ∈ (m.after x).blocked ↔ c ∈ m.blocked ∧ c ≠ b) ∧
      (∀ q, ((m.after x).table.locks q).waiters =
        if q = p then (m.table.locks q).waiters.filter (·.txn ≠ b.txn) else (m.table.locks q).waiters) ∧
      ((∃ before behind, (m.table.locks p).waiters = before ++ b.request :: behind ∧
          ((m.after x).table.locks p).waiters = before ++ behind) ↔
        (m.table.locks p).waiters.filter (·.txn = b.txn) = [b.request])) ∧
    (∃ line, m.Line p line) ∧ m.table.waitingCount p ≤ (m.waitingFor p).length ∧
    (∀ (m₀ : LockManager) (x : Action) (b : Blocked), m₀.Reachable →
      (∀ c ∈ m₀.blocked, c.page = p → c.txn ≠ b.txn) → Meanwhile (fun s => s.AsksOnce p b.txn) m₀ m →
      b ∈ m.blocked → b.page = p → x.Ends m b →
      ∃ before behind, m.Line p (before ++ b :: behind) ∧ (m.after x).Line p (before ++ behind)) ∧
    (∀ m₀ : LockManager, m₀.Reachable → (∀ c ∈ m₀.blocked, c.page ≠ p) →
      Meanwhile (fun s => ∀ txn, s.AsksOnce p txn) m₀ m →
      m.table.waitingCount p = (m.waitingFor p).length) ∧
    ∀ (m' : LockManager) (txn : TxnId) (mode : LockMode) (e : StorageError),
      m.acquireUndisturbed p txn mode = (.error e, m') →
      e = .transactionAborted txn p ∧ m'.table = m.table.withdraw p txn ∧
        (m'.table = m.table ↔ ¬ (m.table.locks p).Queued txn) := by
  obtain ⟨line, hl⟩ := hm.exists_line p
  refine ⟨?_, ⟨line, hl⟩, hl.waitingCount_le, ?_, ?_, ?_⟩
  · rintro x b hb rfl hx
    obtain ⟨hblocked, hwaiters⟩ := turnover_ends hm.ticketed hb hx
    refine ⟨hblocked, fun q => ?_, ?_⟩
    · rw [hwaiters]
      split
      · next hq => rw [hq, PageLocks.dequeue]
      · rfl
    · rw [hwaiters, if_pos rfl]
      exact PageLocks.dequeue_removes_iff
  · rintro m₀ x b hm₀ hnone h hb rfl hx
    have hrun : Meanwhile (fun s => ∀ txn, txn = b.txn → s.AsksOnce b.page txn) m₀ m :=
      h.mono fun s hs txn htxn => htxn ▸ hs
    obtain ⟨hone, line, hl, hall⟩ := exists_line_meanwhile hm₀ hnone hrun
    exact hl.leaves hm.ticketed (hall b.txn rfl b hb rfl rfl) (hone b.txn rfl) hx
  · intro m₀ hm₀ hnone h
    have hrun : Meanwhile (fun s => ∀ txn, True → s.AsksOnce p txn) m₀ m := h.mono fun s hs txn _ => hs txn
    obtain ⟨-, line, hl, hall⟩ := exists_line_meanwhile hm₀ (fun c hc hpage _ => hnone c hc hpage) hrun
    exact hl.waitingCount_eq hm fun txn => hall txn trivial
  · intro m' txn mode e h
    obtain ⟨rfl, htable⟩ := acquireUndisturbed_error hm h
    exact ⟨rfl, htable, htable ▸ withdraw_eq_self_iff hm⟩

/-- Two readers and a writer wait. The second reader's request leaves from between the two others, three
requests wait for three acquires, and a fourth acquire times out without a trace. -/
theorem withdrawal_from_between :
    ((crowded.after (.expire ⟨1, ⟨0, 0⟩, 3, .shared⟩)).table.locks ⟨0, 0⟩).waiters =
        [⟨2, .shared⟩, ⟨4, .exclusive⟩] ∧
      (∃ line, crowded.Line ⟨0, 0⟩ line) ∧
      (∃ before behind, crowded.Line ⟨0, 0⟩ (before ++ ⟨1, ⟨0, 0⟩, 3, .shared⟩ :: behind) ∧
        (crowded.after (.expire ⟨1, ⟨0, 0⟩, 3, .shared⟩)).Line ⟨0, 0⟩ (before ++ behind)) ∧
      (crowded.waitingFor ⟨0, 0⟩).length = 3 ∧
      crowded.table.waitingCount ⟨0, 0⟩ = (crowded.waitingFor ⟨0, 0⟩).length ∧
      ∃ m', crowded.acquireUndisturbed ⟨0, 0⟩ 5 .shared = (.error (.transactionAborted 5 ⟨0, 0⟩), m') ∧
        m'.table = crowded.table := by
  have hb : (⟨1, ⟨0, 0⟩, 3, .shared⟩ : Blocked) ∈ crowded.blocked := by decide +kernel
  have hmeanwhile := orderly_crowded.meanwhile_asksOnce ⟨0, 0⟩
  obtain ⟨hends, hline, -, hown, hcount, hundisturbed⟩ :=
    withdrawal_by_transaction orderly_crowded.reachable ⟨0, 0⟩
  refine ⟨?_, hline, ?_, by decide +kernel, ?_, ?_⟩
  · rw [(hends _ _ hb rfl (.inl rfl)).2.1 ⟨0, 0⟩]
    decide +kernel
  · exact hown {} _ _ .start (by simp [blocked]) (hmeanwhile.mono fun s hs => hs 3) hb rfl (.inl rfl)
  · exact hcount {} .start (by simp [blocked]) hmeanwhile
  · have hfails : (crowded.acquireUndisturbed ⟨0, 0⟩ 5 .shared).1.isOk = false := by decide +kernel
    rcases hrun : crowded.acquireUndisturbed ⟨0, 0⟩ 5 .shared with ⟨_ | e, m'⟩
    · obtain ⟨rfl, -, hiff⟩ := hundisturbed m' 5 .shared _ hrun
      exact ⟨m', rfl, hiff.2 (by decide +kernel)⟩
    · rw [hrun] at hfails
      simp [Except.isOk, Except.toBool] at hfails

/-- One acquire of the transaction waits for the page, which another one has. -/
def askedBefore : LockManager :=
  [.tryAcquire ⟨0, 0⟩ 8 .exclusive, .acquire ⟨0, 0⟩ 1 .exclusive].foldl after {}

theorem reachable_askedBefore : askedBefore.Reachable :=
  (Reachable.start.step (.tryAcquire ⟨0, 0⟩ 8 .exclusive) trivial).step (.acquire ⟨0, 0⟩ 1 .exclusive) trivial

/-- Without the conditions an acquire takes out more than its own request: when the transaction's second
acquire times out, the first one goes on waiting without a request in the queue. -/
theorem withdrawn_with_another :
    (¬ ∀ (m : LockManager) (x : Action) (b : Blocked), m.Reachable → b ∈ m.blocked → x.Ends m b →
      ∃ before behind, (m.table.locks b.page).waiters = before ++ b.request :: behind ∧
        ((m.after x).table.locks b.page).waiters = before ++ behind) ∧
    (¬ ∀ (m : LockManager) (p : PageId), m.Reachable →
      m.table.waitingCount p = (m.waitingFor p).length) ∧
    ¬ ∀ (m m' : LockManager) (p : PageId) (txn : TxnId) (mode : LockMode) (e : StorageError), m.Reachable →
      m.acquireUndisturbed p txn mode = (.error e, m') → m'.table = m.table := by
  have hagain := reachable_askedBefore.step (.acquire ⟨0, 0⟩ 1 .exclusive) trivial
  refine ⟨fun h => ?_, fun h => ?_, fun h => ?_⟩
  · obtain ⟨before, behind, hbefore, hafter⟩ := h _ (.expire ⟨1, ⟨0, 0⟩, 1, .exclusive⟩) _ hagain
      (by decide +kernel) (.inl rfl)
    have htwo := congrArg List.length hbefore
    have hnone := congrArg List.length hafter
    simp only [List.length_append, List.length_cons] at htwo hnone
    have hcounts : ((askedBefore.after (.acquire ⟨0, 0⟩ 1 .exclusive)).table.locks ⟨0, 0⟩).waiters.length = 2 ∧
        (((askedBefore.after (.acquire ⟨0, 0⟩ 1 .exclusive)).after
          (.expire ⟨1, ⟨0, 0⟩, 1, .exclusive⟩)).table.locks ⟨0, 0⟩).waiters.length = 0 := by decide +kernel
    omega
  · exact absurd (h _ ⟨0, 0⟩ (hagain.step (.expire ⟨1, ⟨0, 0⟩, 1, .exclusive⟩) (by decide +kernel)))
      (by decide +kernel)
  · have hfails : (askedBefore.acquireUndisturbed ⟨0, 0⟩ 1 .exclusive).1.isOk = false := by decide +kernel
    rcases hrun : askedBefore.acquireUndisturbed ⟨0, 0⟩ 1 .exclusive with ⟨_ | e, m'⟩
    · have hcount := congrArg (·.waitingCount ⟨0, 0⟩) (h _ m' _ _ _ _ reachable_askedBefore hrun)
      rw [show m' = (askedBefore.acquireUndisturbed ⟨0, 0⟩ 1 .exclusive).2 by rw [hrun]] at hcount
      exact absurd hcount (by decide +kernel)
    · rw [hrun] at hfails
      simp [Except.isOk, Except.toBool] at hfails

end LockManager

end HeapStore
