import HeapStore.Lock.Manager
import HeapStore.Proofs.Lock.Modes

/-!
# Safety of locking

The lock manager as a transition system. An `Action` is one step of one caller: a `tryAcquire`, the first
look of an acquire, a later look of a blocked one before its deadline (`recheck`) or at it (`expire`), a
release of one page or of all. Steps of any number of callers follow each other in any order
(`Reachable`); a blocked acquire may look at any time, and a transaction may have several acquires under
way.

* Every action is a change made for one transaction, and every action but a release only adds to what the
  transaction holds (`gains_after`).
* So an exclusive holder is alone in every reachable state, no step touches the modes of another
  transaction, and only a release lowers a mode (`Reachable.sole_exclusive_holder`).
-/

namespace HeapStore.LockManager

/-- One step of one caller. -/
inductive Action where
  | tryAcquire (p : PageId) (txn : TxnId) (mode : LockMode)
  /-- An acquire is granted at once or begins to wait. -/
  | acquire (p : PageId) (txn : TxnId) (mode : LockMode)
  /-- A blocked acquire looks again, before its deadline. -/
  | recheck (b : Blocked)
  /-- A blocked acquire looks a last time. -/
  | expire (b : Blocked)
  | release (p : PageId) (txn : TxnId)
  | releaseAll (txn : TxnId)
deriving DecidableEq

namespace Action

/-- The transaction that the step is made for. -/
def txn : Action → TxnId
  | tryAcquire _ txn _ | acquire _ txn _ | release _ txn | releaseAll txn => txn
  | recheck b | expire b => b.txn

/-- Only an acquire that waits can look again. -/
def Enabled (m : LockManager) : Action → Prop
  | recheck b | expire b => b ∈ m.blocked
  | _ => True

instance (m : LockManager) (a : Action) : Decidable (a.Enabled m) :=
  match a with
  | recheck b | expire b => inferInstanceAs (Decidable (b ∈ m.blocked))
  | tryAcquire .. | acquire .. | release .. | releaseAll _ => isTrue trivial

/-- Does the step give up the transaction's lock on the page? -/
def GivesUp (p : PageId) : Action → Prop
  | release q _ => q = p
  | releaseAll _ => True
  | _ => False

end Action

/-- The lock manager after a step. -/
def after (m : LockManager) : Action → LockManager
  | .tryAcquire p txn mode => (m.tryAcquire p txn mode).2
  | .acquire p txn mode => (m.acquire p txn mode).2
  | .recheck b => (m.recheck b).2
  | .expire b => (m.expire b).2
  | .release p txn => (m.release p txn).2
  | .releaseAll txn => m.releaseAll txn

/-- The states that steps of any callers, in any order, lead to. -/
inductive Reachable : LockManager → Prop
  | start : Reachable {}
  | step {m : LockManager} (a : Action) : Reachable m → a.Enabled m → Reachable (m.after a)

open LockTable

variable {m : LockManager}

theorem gains_acquire (p : PageId) (txn : TxnId) (mode : LockMode) :
    Gains txn m.table (m.acquire p txn mode).2.table := by
  unfold acquire
  split
  · next hg => exact .grant hg
  · exact .of_mode?_eq mode?_enqueue

theorem gains_recheck (b : Blocked) : Gains b.txn m.table (m.recheck b).2.table := by
  unfold recheck
  split
  · next hg => exact .withdraw_grant hg
  · exact .refl b.txn m.table

/-- A step that is no release takes nothing from its transaction and touches no other. -/
theorem gains_after {a : Action} (ha : ∀ p, ¬ a.GivesUp p) : Gains a.txn m.table (m.after a).table := by
  cases a with
  | tryAcquire p txn mode => exact .tryAcquire
  | acquire p txn mode => exact gains_acquire p txn mode
  | recheck b => exact gains_recheck b
  | expire b => exact .atDeadline
  | release p txn => exact absurd rfl (ha p)
  | releaseAll txn => exact absurd trivial (ha ⟨0, 0⟩)

theorem onlyFor_after (a : Action) : OnlyFor a.txn m.table (m.after a).table := by
  cases a with
  | release p txn => exact .release
  | releaseAll txn => exact .releaseAll
  | _ => exact (gains_after (by simp [Action.GivesUp])).toOnlyFor

/-- A step lowers a mode of its transaction only on a page that it gives up. -/
theorem le_mode_after {a : Action} {p : PageId} {held : LockMode} (ha : ¬ a.GivesUp p)
    (hheld : m.table.mode? p a.txn = some held) :
    ∃ held', (m.after a).table.mode? p a.txn = some held' ∧ held ≤ held' := by
  cases a with
  | release q txn =>
    refine ⟨held, ?_, LockMode.le_refl held⟩
    show (m.table.release q txn).2.mode? p txn = some held
    rw [mode?_release, if_neg fun h => ha h.1.symm]
    exact hheld
  | releaseAll txn => exact absurd trivial ha
  | _ => exact (gains_after (by simp [Action.GivesUp])).own p held hheld

theorem Reachable.safe (h : m.Reachable) : m.table.Safe := by
  induction h with
  | start => exact safe_empty
  | step a _ _ ih => exact (onlyFor_after a).safe ih

/-- **Locking is safe.** Whatever steps were made: who holds a page exclusively is its only holder; a
step leaves every other transaction's mode on every page as it was; and what the step's own transaction
holds it keeps, at least in that mode, on every page that the step does not give up. -/
theorem Reachable.sole_exclusive_holder (h : m.Reachable) :
    (∀ p t u, m.table.mode? p t = some .exclusive → m.table.holds p u = true → u = t) ∧
    ∀ a : Action,
      (∀ p u, u ≠ a.txn → (m.after a).table.mode? p u = m.table.mode? p u) ∧
      ∀ p held, ¬ a.GivesUp p → m.table.mode? p a.txn = some held →
        ∃ held', (m.after a).table.mode? p a.txn = some held' ∧ held ≤ held' := by
  refine ⟨fun p t u ht hu => ?_, fun a => ⟨(onlyFor_after a).others, fun p held => le_mode_after⟩⟩
  obtain ⟨held, hheld⟩ := Option.isSome_iff_exists.1 hu
  exact h.safe.eq_of_exclusive ht hheld

/-- A writer waits behind a reader, is woken by its release and granted: then it is alone, and it keeps
the page while the reader asks for it again. -/
theorem sole_exclusive_holder_after_handover :
    ∃ m : LockManager, m.Reachable ∧ m.table.mode? ⟨0, 0⟩ 2 = some .exclusive ∧
      (∀ u, m.table.holds ⟨0, 0⟩ u = true → u = 2) ∧
      (m.after (.acquire ⟨0, 0⟩ 1 .shared)).table.mode? ⟨0, 0⟩ 2 = m.table.mode? ⟨0, 0⟩ 2 := by
  have h1 := Reachable.start.step (.tryAcquire ⟨0, 0⟩ 1 .shared) trivial
  have h2 := h1.step (.acquire ⟨0, 0⟩ 2 .exclusive) trivial
  have h3 := h2.step (.release ⟨0, 0⟩ 1) trivial
  have h4 := h3.step (.recheck ⟨0, ⟨0, 0⟩, 2, .exclusive⟩) (by decide +kernel)
  exact ⟨_, h4, by decide +kernel,
    fun u hu => h4.sole_exclusive_holder.1 ⟨0, 0⟩ 2 u (by decide +kernel) hu,
    (h4.sole_exclusive_holder.2 _).1 ⟨0, 0⟩ 2 (by decide)⟩

end HeapStore.LockManager
