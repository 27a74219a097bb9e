import HeapStore.Proofs.Lock.Waiting

/-!
# The pages that a transaction holds

A lock table says twice who holds what: for each page its holders, and for each transaction its pages. A
table is `Coherent` if the two agree, if no page has an entry that nobody holds or waits for, and no
transaction one without pages.

* **Coherence is kept.** A grant enters the page on both sides and a release takes it off both
  (`Coherent.grant`, `Coherent.release`); requests that come and go touch neither
  (`Coherent.enqueue`, `Coherent.withdraw`). So every reachable table is coherent (`Reachable.coherent`).
* **Coherence leaves no room.** A coherent table is determined by the locks of its pages (`Coherent.ext`).
  That is why it does not matter how a transaction gives up all its pages: forgetting them first or one by
  one, and in which order, the locks come out alike (`locks_releaseEach`), and so do the tables
  (`Coherent.releaseEach_forgotten`, `Coherent.releaseEach`).
-/

namespace HeapStore

theorem PageLocks.exists_of_not_isIdle {l : PageLocks} (h : l.isIdle = false) :
    (∃ u, l.holders.contains u = true) ∨ ∃ r, r ∈ l.waiters := by
  rw [isIdle, Bool.and_eq_false_iff, List.isEmpty_eq_false_iff_exists_mem] at h
  refine h.imp_left fun hholders => ?_
  by_contra hnone
  have hempty : l.holders = ∅ := Std.ExtTreeMap.ext_getElem? fun u => by
    rw [Std.ExtTreeMap.getElem?_empty, ← Option.not_isSome_iff_eq_none,
      ← Std.ExtTreeMap.contains_eq_isSome_getElem?]
    exact fun hu => hnone ⟨u, hu⟩
  simp [hempty] at hholders

namespace LockTable

variable {t t' : LockTable} {p q : PageId} {txn u : TxnId} {mode : LockMode}

/-- The pages of a transaction. -/
def pagesOf (t : LockTable) (txn : TxnId) : Std.ExtTreeSet PageId := t.held.getD txn ∅

/-- No page has an entry that nobody holds or waits for. -/
def Busy (t : LockTable) : Prop := ∀ (p : PageId) (l : PageLocks), t.pages[p]? = some l → l.isIdle = false

structure Coherent (t : LockTable) : Prop where
  busy : t.Busy
  indexed : ∀ p txn, p ∈ t.pagesOf txn ↔ t.holds p txn = true
  nonempty : ∀ (txn : TxnId) (pages : Std.ExtTreeSet PageId), t.held[txn]? = some pages → pages ≠ ∅

theorem mem_lockedPages : p ∈ t.lockedPages txn ↔ p ∈ t.pagesOf txn := Std.ExtTreeSet.mem_toList

theorem pairwise_lockedPages (t : LockTable) (txn : TxnId) :
    (t.lockedPages txn).Pairwise fun p q => compare p q = .lt := Std.ExtTreeSet.ordered_toList

theorem holds_congr (h : t'.mode? p txn = t.mode? p txn) : t'.holds p txn = t.holds p txn := by
  rw [holds, holds, h]

/-! ### Entries of pages -/

theorem busy_empty : Busy {} := fun p l h => by simp at h

theorem Busy.pages_eq (h : t.Busy) (p : PageId) :
    t.pages[p]? = if (t.locks p).isIdle then none else some (t.locks p) := by
  have hlocks : t.locks p = (t.pages[p]?).getD {} := Std.ExtTreeMap.getD_eq_getD_getElem?
  cases hp : t.pages[p]? with
  | none =>
    rw [hp, Option.getD_none] at hlocks
    rw [hlocks, if_pos (by simp [PageLocks.isIdle])]
  | some l =>
    rw [hp, Option.getD_some] at hlocks
    rw [hlocks, h p l hp, if_neg Bool.false_ne_true]

theorem Busy.setLocks (h : t.Busy) (p : PageId) (l : PageLocks) : (t.setLocks p l).Busy := by
  intro q l' hq
  unfold LockTable.setLocks at hq
  split at hq
  · simp only [Std.ExtTreeMap.getElem?_erase, Std.compare_eq_iff_eq] at hq
    split at hq
    · simp at hq
    · exact h q l' hq
  · next hbusy =>
    simp only [Std.ExtTreeMap.getElem?_insert, Std.compare_eq_iff_eq] at hq
    split at hq
    · rw [← Option.some.inj hq, Bool.eq_false_iff]
      exact hbusy
    · exact h q l' hq

theorem Busy.grant (h : t.Busy) (p : PageId) (txn : TxnId) (mode : LockMode) : (t.grant p txn mode).Busy := by
  intro q l hq
  simp only [LockTable.grant, Std.ExtTreeMap.getElem?_insert, Std.compare_eq_iff_eq] at hq
  split at hq
  · rw [← Option.some.inj hq]
    simp [PageLocks.isIdle, PageLocks.grant]
  · exact h q l hq

theorem pages_forget : (t.forget p txn).pages = t.pages := by
  unfold forget
  split <;> rfl

theorem Busy.release (h : t.Busy) (p : PageId) (txn : TxnId) : (t.release p txn).2.Busy := by
  unfold LockTable.release
  split
  · exact h
  · next l _ =>
    have hset := h.setLocks p (l.release txn)
    intro q l' hq
    rw [pages_forget] at hq
    exact hset q l' hq

/-! ### Pages of transactions -/

theorem pagesOf_grant (u : TxnId) :
    (t.grant p txn mode).pagesOf u = if u = txn then (t.pagesOf txn).insert p else t.pagesOf u := by
  simp only [pagesOf, grant, Std.ExtTreeMap.getD_insert, Std.compare_eq_iff_eq, eq_comm (a := txn)]

theorem held_forget (u : TxnId) : (t.forget p txn).held[u]? =
    if u = txn then t.held[txn]?.bind fun pages =>
      if (pages.erase p).isEmpty then none else some (pages.erase p)
    else t.held[u]? := by
  cases htxn : t.held[txn]? with
  | none =>
    simp only [forget, htxn]
    split
    · next hu => rw [hu, htxn, Option.bind_none]
    · rfl
  | some pages =>
    simp only [forget, htxn]
    rw [Option.bind_some]
    split
    · simp only [Std.ExtTreeMap.getElem?_erase, Std.compare_eq_iff_eq, eq_comm (a := txn)]
    · simp only [Std.ExtTreeMap.getElem?_insert, Std.compare_eq_iff_eq, eq_comm (a := txn)]

theorem mem_pagesOf_forget :
    q ∈ (t.forget p txn).pagesOf u ↔ q ∈ t.pagesOf u ∧ ¬ (q = p ∧ u = txn) := by
  unfold pagesOf
  rw [Std.ExtTreeMap.getD_eq_getD_getElem?, Std.ExtTreeMap.getD_eq_getD_getElem?, held_forget]
  by_cases hu : u = txn
  · subst hu
    rw [if_pos rfl]
    cases t.held[u]? with
    | none => simp
    | some pages =>
      have herase : (if (pages.erase p).isEmpty = true then none else some (pages.erase p)).getD ∅ = pages.erase p := by
        split
        · next hempty => rw [Std.ExtTreeSet.isEmpty_iff.1 hempty, Option.getD_none]
        · rw [Option.getD_some]
      rw [Option.bind_some, herase, Option.getD_some, Std.ExtTreeSet.mem_erase, Ne, Std.compare_eq_iff_eq,
        eq_comm (a := p)]
      simp [and_comm]
  · rw [if_neg hu]
    simp [hu]

/-! ### Coherence -/

theorem coherent_empty : Coherent {} where
  busy := busy_empty
  indexed p txn := by simp [pagesOf, holds, mode?, locks]
  nonempty txn pages h := by simp at h

theorem Coherent.grant (h : t.Coherent) (p : PageId) (txn : TxnId) (mode : LockMode) :
    (t.grant p txn mode).Coherent where
  busy := h.busy.grant p txn mode
  indexed q u := by
    rw [holds, mode?_grant, pagesOf_grant]
    by_cases hu : u = txn
    · subst hu
      rw [if_pos rfl, Std.ExtTreeSet.mem_insert, Std.compare_eq_iff_eq, h.indexed]
      by_cases hq : q = p
      · simp [hq]
      · simp [hq, Ne.symm hq, holds]
    · rw [if_neg hu, if_neg fun hboth => hu hboth.2]
      exact h.indexed q u
  nonempty u pages hu := by
    simp only [LockTable.grant, Std.ExtTreeMap.getElem?_insert, Std.compare_eq_iff_eq] at hu
    split at hu
    · rintro rfl
      have hmem : p ∈ (t.held.getD txn ∅).insert p := by simp
      rw [Option.some.inj hu] at hmem
      exact Std.ExtTreeSet.not_mem_empty hmem
    · exact h.nonempty u pages hu

theorem Coherent.of_modes (h : t.Coherent) (hbusy : t'.Busy) (hheld : t'.held = t.held)
    (hmodes : ∀ q u, t'.mode? q u = t.mode? q u) : t'.Coherent where
  busy := hbusy
  indexed q u := by
    rw [pagesOf, hheld, holds_congr (hmodes q u)]
    exact h.indexed q u
  nonempty := hheld ▸ h.nonempty

theorem Coherent.enqueue (h : t.Coherent) (p : PageId) (txn : TxnId) (mode : LockMode) :
    (t.enqueue p txn mode).Coherent :=
  h.of_modes (h.busy.setLocks p _) rfl mode?_enqueue

theorem Coherent.withdraw (h : t.Coherent) (p : PageId) (txn : TxnId) : (t.withdraw p txn).Coherent :=
  h.of_modes (h.busy.setLocks p _) rfl mode?_withdraw

theorem Coherent.release (h : t.Coherent) (p : PageId) (txn : TxnId) : (t.release p txn).2.Coherent := by
  have hbusy := h.busy.release p txn
  have hmodes := @mode?_release t p txn
  unfold LockTable.release at hbusy hmodes ⊢
  cases hp : t.pages[p]? with
  | none => exact h
  | some l =>
    simp only [hp] at hbusy hmodes ⊢
    refine ⟨hbusy, fun q u => ?_, fun u pages hu => ?_⟩
    · rw [mem_pagesOf_forget, holds, hmodes]
      change q ∈ t.pagesOf u ∧ _ ↔ _
      rw [h.indexed]
      split
      · next hboth => simp [hboth]
      · next hother => simp [hother, holds]
    · rw [held_forget] at hu
      split at hu
      · obtain ⟨before, -, hafter⟩ := Option.bind_eq_some_iff.1 hu
        split at hafter
        · simp at hafter
        · next hsome =>
          rintro rfl
          rw [Option.some.inj hafter] at hsome
          exact hsome Std.ExtTreeSet.isEmpty_empty
      · exact h.nonempty u pages hu

theorem Coherent.held_eq (h : t.Coherent) (txn : TxnId) :
    t.held[txn]? = if (t.pagesOf txn).isEmpty then none else some (t.pagesOf txn) := by
  have hpages : t.pagesOf txn = (t.held[txn]?).getD ∅ := Std.ExtTreeMap.getD_eq_getD_getElem?
  cases htxn : t.held[txn]? with
  | none => rw [hpages, htxn, Option.getD_none, if_pos Std.ExtTreeSet.isEmpty_empty]
  | some pages =>
    rw [hpages, htxn, Option.getD_some, if_neg]
    rw [Std.ExtTreeSet.isEmpty_iff]
    exact h.nonempty txn pages htxn

/-- The locks of the pages determine the whole table. -/
theorem Coherent.ext (h : t.Coherent) (h' : t'.Coherent) (hlocks : ∀ p, t.locks p = t'.locks p) : t = t' := by
  have hpages : t.pages = t'.pages := by
    apply Std.ExtTreeMap.ext_getElem?
    intro p
    rw [h.busy.pages_eq, h'.busy.pages_eq, hlocks]
  have hof : ∀ txn, t.pagesOf txn = t'.pagesOf txn := by
    intro txn
    apply Std.ExtTreeSet.ext_mem
    intro p
    rw [h.indexed, h'.indexed, holds, holds, mode?, mode?, hlocks]
  have hheld : t.held = t'.held := by
    apply Std.ExtTreeMap.ext_getElem?
    intro txn
    rw [h.held_eq, h'.held_eq, hof]
  show LockTable.mk t.pages t.held = LockTable.mk t'.pages t'.held
  rw [hpages, hheld]

/-! ### Giving up all pages -/

/-- Releases pages of a transaction, one after the other. -/
def releaseEach (t : LockTable) (txn : TxnId) (order : List PageId) : LockTable :=
  order.foldl (fun t p => (t.release p txn).2) t

/-- The table in which the transaction has no pages, though the pages still have it as a holder. -/
def forgotten (t : LockTable) (txn : TxnId) : LockTable := { t with held := t.held.erase txn }

theorem releaseAll_eq : t.releaseAll txn = (t.forgotten txn).releaseEach txn (t.lockedPages txn) := rfl

theorem releaseEach_cons (order : List PageId) :
    t.releaseEach txn (p :: order) = (t.release p txn).2.releaseEach txn order := rfl

theorem locks_releaseEach (order : List PageId) (q : PageId) :
    (t.releaseEach txn order).locks q = if q ∈ order then (t.locks q).release txn else t.locks q := by
  induction order generalizing t with
  | nil => simp [releaseEach]
  | cons p order ih =>
    rw [releaseEach_cons, ih, locks_release]
    by_cases hq : q = p
    · subst hq
      have htwice : ((t.locks q).release txn).release txn = (t.locks q).release txn :=
        PageLocks.release_eq_self (by rw [PageLocks.holders_release, if_pos rfl])
      rw [if_pos rfl, htwice, if_pos List.mem_cons_self]
      split <;> rfl
    · simp only [List.mem_cons, hq, if_false, false_or]

/-- A page that the transaction does not hold is as if it were released. -/
theorem Coherent.locks_releaseEach (h : t.Coherent) {order : List PageId}
    (horder : ∀ p, p ∈ order ↔ p ∈ t.lockedPages txn) (q : PageId) :
    (t.releaseEach txn order).locks q = (t.locks q).release txn := by
  rw [LockTable.locks_releaseEach]
  split
  · rfl
  · next hnot =>
    rw [horder, mem_lockedPages, h.indexed, holds, Option.not_isSome_iff_eq_none] at hnot
    exact (PageLocks.release_eq_self hnot).symm

theorem Coherent.releaseEach (h : t.Coherent) (txn : TxnId) (order : List PageId) :
    (t.releaseEach txn order).Coherent := by
  induction order generalizing t with
  | nil => exact h
  | cons p order ih => exact ih (h.release p txn)

theorem Busy.releaseEach (h : t.Busy) (txn : TxnId) (order : List PageId) : (t.releaseEach txn order).Busy := by
  induction order generalizing t with
  | nil => exact h
  | cons p order ih => exact ih (h.release p txn)

theorem held_releaseEach (h : t.held[txn]? = none) (order : List PageId) :
    (t.releaseEach txn order).held = t.held := by
  induction order generalizing t with
  | nil => rfl
  | cons p order ih =>
    have hrelease : (t.release p txn).2.held = t.held := by
      unfold release
      split
      · rfl
      · have hforget : ∀ s : LockTable, s.held[txn]? = none → s.forget p txn = s := fun s hs => by
          rw [forget, hs]
        rw [hforget _ (by exact h)]
        rfl
    rw [releaseEach_cons, ih (by rw [hrelease, h]), hrelease]

theorem mode?_of_released {t' : LockTable} (hlocks : ∀ p, t'.locks p = (t.locks p).release txn) (q : PageId)
    (u : TxnId) : t'.mode? q u = if u = txn then none else t.mode? q u := by
  rw [mode?, hlocks, PageLocks.holders_release, mode?]

/-- The transaction is first forgotten and then taken off its pages. -/
theorem Coherent.releaseEach_forgotten (h : t.Coherent) {order : List PageId}
    (horder : ∀ p, p ∈ order ↔ p ∈ t.lockedPages txn) :
    (t.forgotten txn).releaseEach txn order = t.releaseEach txn order := by
  have hlocks : ∀ p, ((t.forgotten txn).releaseEach txn order).locks p = (t.releaseEach txn order).locks p := by
    intro p
    rw [LockTable.locks_releaseEach, LockTable.locks_releaseEach]
    rfl
  have hheld : ((t.forgotten txn).releaseEach txn order).held = t.held.erase txn :=
    held_releaseEach (by simp [forgotten]) order
  refine Coherent.ext ⟨Busy.releaseEach (t := t.forgotten txn) h.busy txn order, fun q u => ?_, fun u pages hu => ?_⟩
    (h.releaseEach txn order) hlocks
  · rw [holds, mode?_of_released fun p => (hlocks p).trans (h.locks_releaseEach horder p), pagesOf, hheld,
      Std.ExtTreeMap.getD_erase]
    simp only [Std.compare_eq_iff_eq, eq_comm (a := txn)]
    split
    · simp
    · exact h.indexed q u
  · rw [hheld, Std.ExtTreeMap.getElem?_erase] at hu
    split at hu
    · simp at hu
    · exact h.nonempty u pages hu

theorem Coherent.releaseAll_eq (h : t.Coherent) {order : List PageId}
    (horder : ∀ p, p ∈ order ↔ p ∈ t.lockedPages txn) : t.releaseAll txn = t.releaseEach txn order := by
  rw [LockTable.releaseAll_eq, h.releaseEach_forgotten fun _ => Iff.rfl]
  refine Coherent.ext (h.releaseEach txn _) (h.releaseEach txn order) fun p => ?_
  rw [h.locks_releaseEach fun _ => Iff.rfl, h.locks_releaseEach horder]

theorem Coherent.releaseAll (h : t.Coherent) (txn : TxnId) : (t.releaseAll txn).Coherent := by
  rw [h.releaseAll_eq fun _ => Iff.rfl]
  exact h.releaseEach txn _

end LockTable

namespace LockManager

open LockTable

variable {m : LockManager} {txn : TxnId}

theorem coherent_after (h : m.table.Coherent) (a : Action) : (m.after a).table.Coherent := by
  cases a with
  | tryAcquire p txn mode =>
    show (m.table.tryAcquire p txn mode).2.Coherent
    unfold LockTable.tryAcquire
    split
    · exact h.grant p txn mode
    · exact h
  | acquire p txn mode =>
    unfold after acquire
    dsimp only
    split
    · exact h.grant p txn mode
    · exact h.enqueue p txn mode
  | recheck b =>
    unfold after recheck
    dsimp only
    split
    · exact (h.withdraw b.page b.txn).grant b.page b.txn b.mode
    · exact h
  | expire b =>
    show (m.table.atDeadline b.page b.txn b.mode).2.Coherent
    unfold LockTable.atDeadline
    split
    · exact (h.withdraw b.page b.txn).grant b.page b.txn b.mode
    · exact h.withdraw b.page b.txn
  | release p txn => exact h.release p txn
  | releaseAll txn => exact h.releaseAll txn

theorem Reachable.coherent (h : m.Reachable) : m.table.Coherent := by
  induction h with
  | start => exact coherent_empty
  | step a _ _ ih => exact coherent_after ih a

/-- Releases pages of a transaction, one call after the other. -/
def releaseEach (m : LockManager) (txn : TxnId) (order : List PageId) : LockManager :=
  order.foldl (fun m p => (m.release p txn).2) m

theorem wakeAll_wakeAll : m.wakeAll.wakeAll = m.wakeAll := by
  unfold wakeAll
  rw [List.append_nil]

theorem wakeAll_releaseEach (order : List PageId) :
    (m.releaseEach txn order).wakeAll = { m.wakeAll with table := m.table.releaseEach txn order } := by
  induction order generalizing m with
  | nil => rfl
  | cons p order ih =>
    have hwake : (m.release p txn).2.wakeAll = { m.wakeAll with table := (m.table.release p txn).2 } := by
      unfold release
      dsimp only
      cases (m.table.release p txn).1 with
      | false => rfl
      | true =>
        show ({ m.wakeAll.wakeAll with table := _ } : LockManager) = _
        rw [wakeAll_wakeAll]
    show ((m.release p txn).2.releaseEach txn order).wakeAll = _
    rw [ih, hwake]
    rfl

/-- **Both sides of the table agree.** In every reachable state a transaction holds exactly the pages that its
entry lists, and these are listed once and in order; no page has an entry that nobody holds or waits for, and
no transaction one without pages. So giving up all locks takes the transaction off every page, whichever
way through its pages is taken: others keep their modes and queues, and but for the wake-up the pages might as
well have been released one by one. -/
theorem Reachable.index_exact (h : m.Reachable) :
    (∀ p txn, p ∈ m.table.pagesOf txn ↔ m.table.holds p txn = true) ∧
    (∀ txn, (m.table.lockedPages txn).Pairwise (fun p q => compare p q = .lt) ∧
      ∀ p, p ∈ m.table.lockedPages txn ↔ ∃ mode, m.table.mode? p txn = some mode) ∧
    (∀ (p : PageId) (l : PageLocks), m.table.pages[p]? = some l →
      (∃ u, l.holders.contains u = true) ∨ ∃ r, r ∈ l.waiters) ∧
    (∀ (txn : TxnId) (pages : Std.ExtTreeSet PageId), m.table.held[txn]? = some pages → ∃ p, p ∈ pages) ∧
    ∀ txn,
      (∀ p u, (m.releaseAll txn).table.mode? p u = if u = txn then none else m.table.mode? p u) ∧
      (∀ p, ((m.releaseAll txn).table.locks p).waiters = (m.table.locks p).waiters) ∧
      ∀ order, order.Perm (m.table.lockedPages txn) →
        (m.table.forgotten txn).releaseEach txn order = (m.releaseAll txn).table ∧
        (m.releaseEach txn order).wakeAll = m.releaseAll txn := by
  have ht := h.coherent
  refine ⟨ht.indexed, fun txn => ⟨pairwise_lockedPages _ txn, fun p => ?_⟩, fun p l hp => ?_,
    fun txn pages htxn => ?_, fun txn => ⟨fun p u => ?_, waiters_releaseAll, fun order horder => ?_⟩⟩
  · rw [mem_lockedPages, ht.indexed]
    exact Option.isSome_iff_exists
  · exact PageLocks.exists_of_not_isIdle (ht.busy p l hp)
  · by_contra hnone
    exact ht.nonempty txn pages htxn (Std.ExtTreeSet.ext_mem fun p => by simpa using fun hp => hnone ⟨p, hp⟩)
  · refine mode?_of_released (fun q => ?_) p u
    show (m.table.releaseAll txn).locks q = _
    rw [ht.releaseAll_eq fun _ => Iff.rfl, ht.locks_releaseEach fun _ => Iff.rfl]
  · have hmem : ∀ p, p ∈ order ↔ p ∈ m.table.lockedPages txn := fun p => horder.mem_iff
    have htable : m.table.releaseAll txn = m.table.releaseEach txn order := ht.releaseAll_eq hmem
    refine ⟨(ht.releaseEach_forgotten hmem).trans htable.symm, ?_⟩
    rw [wakeAll_releaseEach, ← htable]
    rfl

/-- A transaction gives up two pages, the second one first: the one is still shared by another reader, and for
the other one a writer waits. -/
theorem index_exact_of_two_pages :
    ∃ m : LockManager, m.Reachable ∧ m.table.lockedPages 1 = [⟨0, 0⟩, ⟨0, 1⟩] ∧
      (m.table.forgotten 1).releaseEach 1 [⟨0, 1⟩, ⟨0, 0⟩] = (m.releaseAll 1).table ∧
      (∀ p, (m.releaseAll 1).table.mode? p 1 = none) ∧
      (m.releaseAll 1).table.mode? ⟨0, 1⟩ 2 = some .shared ∧
      ((m.releaseAll 1).table.locks ⟨0, 0⟩).waiters = [⟨3, .exclusive⟩] := by
  have h1 := Reachable.start.step (.tryAcquire ⟨0, 0⟩ 1 .exclusive) trivial
  have h2 := h1.step (.tryAcquire ⟨0, 1⟩ 1 .shared) trivial
  have h3 := h2.step (.tryAcquire ⟨0, 1⟩ 2 .shared) trivial
  have h4 := h3.step (.acquire ⟨0, 0⟩ 3 .exclusive) trivial
  obtain ⟨-, -, -, -, hall⟩ := h4.index_exact
  obtain ⟨hmodes, hqueues, horder⟩ := hall 1
  exact ⟨_, h4, by decide +kernel, (horder [⟨0, 1⟩, ⟨0, 0⟩] (by decide +kernel)).1, fun p => hmodes p 1,
    (hmodes ⟨0, 1⟩ 2).trans (by decide +kernel), (hqueues ⟨0, 0⟩).trans (by decide +kernel)⟩

end LockManager

end HeapStore
