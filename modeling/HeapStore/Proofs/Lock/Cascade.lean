import HeapStore.Proofs.Lock.Wakeups
import Mathlib.Logic.Relation
import Mathlib.Data.Finset.Basic

/-!
# The order of wake-ups does not matter

When a lock is given up, all blocked acquires are woken, and in which order they look is up to the
scheduler. A `Cascade` is a sequence of looks in any order.

* **Two grants commute.** If two that wait could go and one of them went, the other can still go, and the
  table is the same in either order (`Peaceful.canGo_serve`, `serve_comm`). This needs that those of one
  page are shared (`Peaceful`); after a grant it holds again, since next to a holder only shared requests
  can go (`Peaceful.serve`). So all sequences of grants that cannot go on end alike (`grants_unique`).
* **One step from rest enables no conflict.** Where an exclusive request and another one can both go,
  nobody waits in the queue, or the exclusive one is that of the only holder and the other one shared
  (`empty_or_upgrade`). The first is impossible as long as one of the two has its request in the queue; the
  second would have been possible before the step (`shared_of_release`, `shared_of_dequeue`).
* **Confluence.** A cascade makes grants and nothing else (`Cascade.grants`); woken acquires do not look
  forever (`wellFounded_looks`); and all cascades that come to rest come to the same
  (`AtRest.cascade_confluent`).

The requests of two acquires may both be lost, taken along by other acquires of their transactions. Then
the first to look wins (`lost_requests_compete`).
-/

namespace HeapStore

/-! ### Grants of one page -/

namespace PageLocks

variable {l : PageLocks} {txn u : TxnId} {mode mode' : LockMode}

theorem MayPass.dequeue (h : l.MayPass txn mode) (hne : u ≠ txn) : (l.dequeue u).MayPass txn mode := by
  unfold MayPass
  rw [ahead_dequeue hne, queued_dequeue_iff hne]
  rcases h with hnone | ⟨hmode, hqueued, hall⟩
  · exact .inl (by rw [hnone, List.filter_nil])
  · exact .inr ⟨hmode, hqueued, fun r hr => hall r (List.mem_filter.1 hr).1⟩

theorem grantable_dequeue_grant (hne : u ≠ txn) (h : l.grantable txn .shared = true) :
    ((l.dequeue u).grant u .shared).grantable txn .shared = true := by
  have hheld : ((l.dequeue u).grant u .shared).holders[txn]? = l.holders[txn]? := by
    rw [holders_grant, if_neg (Ne.symm hne), holders_dequeue]
  rcases grantable_iff.1 h with ⟨held, hhas, hle⟩ | ⟨hadmits, ⟨held, hhas, hle⟩ | hpass⟩
  · exact grantable_iff.2 (.inl ⟨held, hheld.trans hhas, hle⟩)
  · exact grantable_iff.2 (.inl ⟨held, hheld.trans hhas, hle⟩)
  · refine grantable_iff.2 (.inr ⟨fun v held hv hvne => ⟨rfl, ?_⟩, .inr (hpass.dequeue hne)⟩)
    rw [holders_grant] at hv
    split at hv
    · -- The other one held nothing or shared, so it is shared now.
      rw [← Option.some.inj hv, granted, holders_dequeue]
      cases hu : l.holders[u]? with
      | none => rfl
      | some held' =>
        obtain rfl := (hadmits u held' hu hne).2
        rfl
    · exact (hadmits v held hv hvne).2

theorem dequeue_grant_comm (hne : u ≠ txn) :
    (((l.dequeue u).grant u mode').dequeue txn).grant txn mode =
      (((l.dequeue txn).grant txn mode).dequeue u).grant u mode' := by
  refine ext_holders (fun v => ?_) ?_
  · simp only [holders_grant, holders_dequeue, granted, if_neg hne, if_neg hne.symm]
    by_cases h₁ : v = u <;> by_cases h₂ : v = txn <;> simp_all
  · simp only [waiters_grant, dequeue, List.filter_filter, Bool.and_comm]

/-- An exclusive request and another one that can both go: either nobody waits in the queue, or the
exclusive one is that of the page's only holder and the other one a shared one. -/
theorem empty_or_upgrade {requests : LockRequest → Prop} (hs : l.Safe)
    (hasked : ∀ r ∈ l.waiters, requests r)
    (hone : ∀ r r', requests r → requests r' → r.txn = r'.txn → r = r') {r r' : LockRequest}
    (hr : requests r) (hne : r.txn ≠ r'.txn) (hexclusive : r.mode = .exclusive)
    (hgo : l.grantable r.txn r.mode = true) (hgo' : l.grantable r'.txn r'.mode = true) :
    l.waiters = [] ∨
      l.Renews r.txn r.mode ∧ r'.mode = .shared ∧ l.MayPass r'.txn r'.mode ∧
        ∀ u held, l.holders[u]? = some held → u = r.txn ∧ held = .shared := by
  have hsole : ∀ u held, l.holders[u]? = some held → u = r.txn := by
    intro u held hu
    by_contra hother
    have := mode_eq_shared_of_grantable hs hu hother hgo
    rw [hexclusive] at this
    simp at this
  have hnothing : ∀ mode, ¬ l.Has r'.txn mode := fun mode ⟨held, hheld, _⟩ => hne (hsole _ held hheld).symm
  obtain ⟨hadmits', hpass'⟩ := (grantable_iff.1 hgo').resolve_left (hnothing _)
  have hpass' := hpass'.resolve_left (hnothing _)
  by_cases hpass : l.MayPass r.txn r.mode
  · left
    by_contra hsome
    obtain ⟨first, rest, hwaiters⟩ := List.exists_cons_of_ne_nil hsome
    have hnone : l.ahead r.txn = [] := hpass.resolve_right fun h => by simp [hexclusive] at h
    have hfirst : first = r := by
      refine hone first r (hasked first (hwaiters ▸ List.mem_cons_self)) hr ?_
      by_contra hother
      simp [ahead, hwaiters, hother] at hnone
    -- The exclusive request is at the head, so the other one has it ahead.
    have hahead : r ∈ l.ahead r'.txn := by
      simp [ahead, hwaiters, hfirst, hne]
    rcases hpass' with hnone' | ⟨-, -, hall⟩
    · simp [hnone'] at hahead
    · have := hall r hahead
      rw [hexclusive] at this
      simp at this
  · right
    have hrenews := renews_of_grantable hgo hpass
    have hheld : ∃ held, l.holders[r.txn]? = some held := by
      rcases hrenews with ⟨held, hheld, -⟩ | ⟨⟨held, hheld, -⟩, -⟩ <;> exact ⟨held, hheld⟩
    obtain ⟨held, hheld⟩ := hheld
    exact ⟨hrenews, (hadmits' _ held hheld hne).1, hpass', fun u held' hu =>
      ⟨hsole u held' hu, (hadmits' u held' hu (by rw [hsole u held' hu]; exact hne)).2⟩⟩

section rest

variable {requests : LockRequest → Prop}

/-- What a page at rest enables when a lock on it is released does not conflict. -/
theorem shared_of_release (hs : l.Safe) (hasked : ∀ r ∈ l.waiters, requests r)
    (hone : ∀ r r', requests r → requests r' → r.txn = r'.txn → r = r')
    (hrest : ∀ r, requests r → l.grantable r.txn r.mode = false) {r r' : LockRequest}
    (hr : requests r) (hr' : requests r') (hne : r.txn ≠ r'.txn)
    (hplaces : r.mode = .exclusive → r ∈ l.waiters ∨ r' ∈ l.waiters)
    (hgo : (l.release u).grantable r.txn r.mode = true)
    (hgo' : (l.release u).grantable r'.txn r'.mode = true) : r.mode = .shared := by
  cases hmode : r.mode with
  | shared => rfl
  | exclusive =>
    exfalso
    rcases empty_or_upgrade hs.release hasked hone hr hne hmode hgo hgo' with
      hempty | ⟨hrenews, hshared, hpass, hholders⟩
    · rw [waiters_release] at hempty
      simpa [hempty] using hplaces hmode
    · -- Before, the page was shared as well, so the other request could go.
      have hheld : ∃ held, (l.release u).holders[r.txn]? = some held := by
        rcases hrenews with ⟨held, hheld, -⟩ | ⟨⟨held, hheld, -⟩, -⟩ <;> exact ⟨held, hheld⟩
      obtain ⟨held, hheld⟩ := hheld
      rw [holders_release] at hheld
      split at hheld
      · simp at hheld
      · next hru =>
        have hadmits : l.Admits r'.txn r'.mode := by
          intro v heldByV hv _
          refine ⟨hshared, ?_⟩
          by_cases hvu : v = u
          · cases heldByV with
            | shared => rfl
            | exclusive => exact absurd (hs v r.txn held hv hheld) (hvu ▸ hru)
          · exact (hholders v heldByV (by rw [holders_release, if_neg hvu, hv])).2
        have hbefore := grantable_iff.2 (.inr ⟨hadmits, .inr hpass⟩)
        rw [hrest r' hr'] at hbefore
        simp at hbefore

theorem shared_of_dequeue (hs : l.Safe) (hasked : ∀ r ∈ l.waiters, requests r)
    (hone : ∀ r r', requests r → requests r' → r.txn = r'.txn → r = r')
    (hrest : ∀ r, requests r → l.grantable r.txn r.mode = false) {r r' : LockRequest}
    (hr : requests r) (hne : r.txn ≠ r'.txn) (hru : r.txn ≠ u) (hru' : r'.txn ≠ u)
    (hplaces : r.mode = .exclusive → r ∈ l.waiters ∨ r' ∈ l.waiters)
    (hgo : (l.dequeue u).grantable r.txn r.mode = true)
    (hgo' : (l.dequeue u).grantable r'.txn r'.mode = true) : r.mode = .shared := by
  cases hmode : r.mode with
  | shared => rfl
  | exclusive =>
    exfalso
    have hasked' : ∀ r ∈ (l.dequeue u).waiters, requests r := fun r hr =>
      hasked r (mem_waiters_dequeue.1 hr).1
    have hs' : (l.dequeue u).Safe := hs
    rcases empty_or_upgrade hs' hasked' hone hr hne hmode hgo hgo' with hempty | ⟨hrenews, -⟩
    · rcases hplaces hmode with hin | hin
      · simpa [hempty] using mem_waiters_dequeue.2 ⟨hin, hru⟩
      · simpa [hempty] using mem_waiters_dequeue.2 ⟨hin, hru'⟩
    · have hbefore : l.grantable r.txn r.mode = true := grantable_of_renews hrenews
      rw [hrest r hr] at hbefore
      simp at hbefore

end rest

end PageLocks

/-! ### Grants of the table -/

namespace LockTable

variable {t : LockTable} {b c : Blocked} {waiting : Finset Blocked}

/-- The blocked acquire is granted: its request leaves the queue, and its transaction has the page. -/
def serve (t : LockTable) (b : Blocked) : LockTable :=
  (t.withdraw b.page b.txn).grant b.page b.txn b.mode

theorem locks_serve (q : PageId) : (t.serve b).locks q =
    if q = b.page then ((t.locks b.page).dequeue b.txn).grant b.txn b.mode else t.locks q :=
  locks_withdraw_grant q

theorem getElem?_pages_serve (q : PageId) : (t.serve b).pages[q]? =
    if q = b.page then some (((t.locks b.page).dequeue b.txn).grant b.txn b.mode) else t.pages[q]? := by
  have hpage : (t.withdraw b.page b.txn).locks b.page = (t.locks b.page).dequeue b.txn := by
    rw [locks_withdraw, if_pos rfl]
  have hother : q ≠ b.page → (t.withdraw b.page b.txn).pages[q]? = t.pages[q]? := fun hq => by
    unfold withdraw setLocks
    split <;>
      simp only [Std.ExtTreeMap.getElem?_erase, Std.ExtTreeMap.getElem?_insert, Std.compare_eq_iff_eq,
        if_neg hq.symm]
  simp only [serve, grant, Std.ExtTreeMap.getElem?_insert, Std.compare_eq_iff_eq, hpage, eq_comm (a := q)]
  split
  · rfl
  · next h => exact hother (Ne.symm h)

theorem held_serve : (t.serve b).held = t.held.insert b.txn ((t.held.getD b.txn ∅).insert b.page) := by
  have hwithdraw : (t.withdraw b.page b.txn).held = t.held := rfl
  rw [serve, grant, hwithdraw]

theorem serve_comm (h : b.page = c.page → b.txn ≠ c.txn) : (t.serve b).serve c = (t.serve c).serve b := by
  have hpages : ((t.serve b).serve c).pages = ((t.serve c).serve b).pages := by
    apply Std.ExtTreeMap.ext_getElem?
    intro q
    simp only [getElem?_pages_serve, locks_serve]
    by_cases hpage : b.page = c.page
    · rw [hpage, if_pos rfl, if_pos rfl, PageLocks.dequeue_grant_comm (h hpage)]
      split <;> rfl
    · rw [if_neg (Ne.symm hpage), if_neg hpage]
      by_cases hb : q = b.page
      · rw [if_pos hb, if_pos hb, if_neg (hb ▸ hpage)]
      · rw [if_neg hb, if_neg hb]
  have hheld : ((t.serve b).serve c).held = ((t.serve c).serve b).held := by
    simp only [held_serve]
    apply Std.ExtTreeMap.ext_getElem?
    intro u
    simp only [Std.ExtTreeMap.getElem?_insert, Std.ExtTreeMap.getD_insert, Std.compare_eq_iff_eq]
    by_cases htxn : b.txn = c.txn
    · rw [if_pos htxn, if_pos htxn.symm, htxn]
      split
      · refine congrArg some (Std.ExtTreeSet.ext_mem fun q => ?_)
        simp only [Std.ExtTreeSet.mem_insert, Std.compare_eq_iff_eq]
        exact or_left_comm
      · rfl
    · rw [if_neg htxn, if_neg (Ne.symm htxn)]
      by_cases hb : b.txn = u
      · rw [if_pos hb, if_pos hb, if_neg fun hc => htxn (hb.trans hc.symm)]
      · rw [if_neg hb, if_neg hb]
  show LockTable.mk ((t.serve b).serve c).pages ((t.serve b).serve c).held = _
  rw [hpages, hheld]

/-- Those that wait can be granted in any order: those of one page that can be granted are shared. -/
structure Peaceful (t : LockTable) (waiting : Finset Blocked) : Prop where
  safe : t.Safe
  onePerPage : ∀ b ∈ waiting, ∀ c ∈ waiting, b.page = c.page → b.txn = c.txn → b = c
  shared : ∀ b ∈ waiting, ∀ c ∈ waiting, b ≠ c → b.page = c.page → t.CanGo b → t.CanGo c → b.mode = .shared

theorem Peaceful.canGo_serve (h : t.Peaceful waiting) (hb : b ∈ waiting) (hc : c ∈ waiting) (hne : b ≠ c)
    (hgob : t.CanGo b) (hgoc : t.CanGo c) : (t.serve b).CanGo c := by
  rw [CanGo, grantable, locks_serve]
  split
  · next hpage =>
    have htxn : b.txn ≠ c.txn := fun htxn => hne (h.onePerPage b hb c hc hpage.symm htxn)
    have hsharedb := h.shared b hb c hc hne hpage.symm hgob hgoc
    have hsharedc := h.shared c hc b hb hne.symm hpage hgoc hgob
    rw [CanGo, grantable, hpage, hsharedc] at hgoc
    rw [hsharedb, hsharedc]
    exact PageLocks.grantable_dequeue_grant htxn hgoc
  · exact hgoc

/-- Next to a transaction that was just granted, only shared requests can go. -/
theorem Peaceful.serve (h : t.Peaceful waiting) (hb : b ∈ waiting) (hgo : t.CanGo b) :
    (t.serve b).Peaceful (waiting.erase b) := by
  have hsafe : (t.serve b).Safe := (Gains.withdraw_grant hgo).safe h.safe
  refine ⟨hsafe, fun c hc d hd => h.onePerPage c (Finset.mem_of_mem_erase hc) d (Finset.mem_of_mem_erase hd),
    fun c hc d hd hne hpage hgoc hgod => ?_⟩
  obtain ⟨hcb, hc⟩ := Finset.mem_erase.1 hc
  by_cases hbpage : c.page = b.page
  · have hheld : ∃ held, ((t.serve b).locks c.page).holders[b.txn]? = some held := by
      rw [locks_serve, if_pos hbpage, PageLocks.holders_grant, if_pos rfl]
      exact ⟨_, rfl⟩
    obtain ⟨held, hheld⟩ := hheld
    have htxn : b.txn ≠ c.txn := fun htxn => hcb (h.onePerPage c hc b hb hbpage htxn.symm)
    exact PageLocks.mode_eq_shared_of_grantable (hsafe c.page) hheld htxn hgoc
  · have hd := Finset.mem_of_mem_erase hd
    rw [CanGo, grantable, locks_serve, if_neg hbpage] at hgoc
    rw [CanGo, grantable, locks_serve, if_neg (hpage ▸ hbpage)] at hgod
    exact h.shared c hc d hd hne hpage hgoc hgod

/-- One grant: who is granted waits no longer. -/
def Grants (x y : LockTable × Finset Blocked) : Prop :=
  x.1.Peaceful x.2 ∧ ∃ b ∈ x.2, x.1.CanGo b ∧ y = (x.1.serve b, x.2.erase b)

/-- Two grants from one state are the same, or each can be completed by the other. -/
theorem grants_diamond {x y z : LockTable × Finset Blocked} (hy : Grants x y) (hz : Grants x z) :
    y = z ∨ ∃ w, Grants y w ∧ Grants z w := by
  obtain ⟨hx, b, hb, hgob, rfl⟩ := hy
  obtain ⟨-, c, hc, hgoc, rfl⟩ := hz
  by_cases hbc : b = c
  · exact .inl (by rw [hbc])
  · refine .inr ⟨((x.1.serve b).serve c, (x.2.erase b).erase c), ?_, ?_⟩
    · exact ⟨hx.serve hb hgob, c, Finset.mem_erase.2 ⟨Ne.symm hbc, hc⟩, hx.canGo_serve hb hc hbc hgob hgoc, rfl⟩
    · refine ⟨hx.serve hc hgoc, b, Finset.mem_erase.2 ⟨hbc, hb⟩,
        hx.canGo_serve hc hb (Ne.symm hbc) hgoc hgob, ?_⟩
      rw [serve_comm fun hpage htxn => hbc (hx.onePerPage b hb c hc hpage htxn), Finset.erase_right_comm]

theorem eq_of_no_grants {x y : LockTable × Finset Blocked} (hend : ∀ w, ¬ Grants x w)
    (h : Relation.ReflTransGen Grants x y) : y = x := by
  rcases h.cases_head with rfl | ⟨w, hw, -⟩
  · rfl
  · exact absurd hw (hend w)

/-- All sequences of grants that cannot go on end alike. -/
theorem grants_unique {x y z : LockTable × Finset Blocked} (hy : Relation.ReflTransGen Grants x y)
    (hz : Relation.ReflTransGen Grants x z) (hyend : ∀ w, ¬ Grants y w) (hzend : ∀ w, ¬ Grants z w) :
    y = z := by
  have hjoin : Relation.Join (Relation.ReflTransGen Grants) y z := by
    refine Relation.church_rosser (fun a b c hb hc => ?_) hy hz
    rcases grants_diamond hb hc with rfl | ⟨d, hbd, hcd⟩
    · exact ⟨b, .refl, .refl⟩
    · exact ⟨d, .single hbd, .single hcd⟩
  obtain ⟨w, hyw, hzw⟩ := hjoin
  rw [← eq_of_no_grants hyend hyw, eq_of_no_grants hzend hzw]

end LockTable

/-! ### The cascade -/

namespace LockManager

open LockTable

variable {m m' : LockManager} {a : Action} {b c : Blocked} {ended : List Ended}

/-- Blocked acquires look, one after the other in any order; the list holds those that ended. -/
inductive Cascade (m : LockManager) : List Ended → LockManager → Prop
  | start : Cascade m [] m
  | look {ended : List Ended} {m' : LockManager} (b : Blocked) :
      Cascade m ended m' → b ∈ m'.blocked → Cascade m (ended ++ (m'.recheck b).1.toList) (m'.recheck b).2

instance (m : LockManager) : Decidable m.AtRest :=
  inferInstanceAs (Decidable (∀ b ∈ m.blocked, ¬ m.table.CanGo b))

instance (m : LockManager) : Decidable m.OnePerPage :=
  inferInstanceAs (Decidable (∀ b ∈ m.blocked, ∀ c ∈ m.blocked, b.page = c.page → b.txn = c.txn → b = c))

/-- The table, and who waits. -/
def core (m : LockManager) : LockTable × Finset Blocked := (m.table, m.blocked.toFinset)

theorem core_recheck_of_refused (hm : m.Ticketed) (hb : b ∈ m.blocked) (hgo : ¬ m.table.CanGo b) :
    (m.recheck b).2.core = m.core := by
  have htable : (m.recheck b).2.table = m.table := by rw [recheck_of_refused hgo]; rfl
  refine Prod.ext htable (Finset.ext fun c => ?_)
  rw [core, core, List.mem_toFinset, List.mem_toFinset]
  exact hm.mem_recheck_of_refused hb hgo

theorem core_recheck_of_granted (hm : m.Ticketed) (hb : b ∈ m.blocked) (hgo : m.table.CanGo b) :
    (m.recheck b).2.core = (m.table.serve b, m.blocked.toFinset.erase b) := by
  have htable : (m.recheck b).2.table = m.table.serve b := by rw [recheck_of_granted hgo]; rfl
  refine Prod.ext htable (Finset.ext fun c => ?_)
  rw [core, List.mem_toFinset, Finset.mem_erase, List.mem_toFinset, hm.mem_recheck_of_granted hb hgo]
  exact And.comm

theorem AtRest.no_grants (h : m.AtRest) (y : LockTable × Finset Blocked) : ¬ Grants m.core y := by
  rintro ⟨-, b, hb, hgo, -⟩
  exact h b (List.mem_toFinset.1 hb) hgo

/-! ### What happens in every cascade -/

theorem Cascade.reachable (h : Cascade m ended m') (hm : m.Reachable) : m'.Reachable := by
  induction h with
  | start => exact hm
  | look b _ hb ih => exact ih.step (.recheck b) hb

theorem Cascade.alert (h : Cascade m ended m') (hm : m.Reachable) (halert : m.Alert) : m'.Alert := by
  induction h with
  | start => exact halert
  | look b hprev hb ih => exact ih.recheck (hprev.reachable hm).ticketed hb

theorem Cascade.blocked_subset (h : Cascade m ended m') (hm : m.Reachable) :
    ∀ b ∈ m'.blocked, b ∈ m.blocked := by
  induction h with
  | start => exact fun _ hb => hb
  | @look _ m' d hprev hd ih =>
    have hticketed := (hprev.reachable hm).ticketed
    intro b hb
    by_cases hgo : m'.table.CanGo d
    · exact ih b ((hticketed.mem_recheck_of_granted hd hgo).1 hb).1
    · exact ih b ((hticketed.mem_recheck_of_refused hd hgo).1 hb)

theorem length_blocked_wakeAll : m.wakeAll.blocked.length = m.blocked.length := by
  simp only [blocked, wakeAll, List.nil_append, List.length_append]
  exact Nat.add_comm ..

theorem length_blocked_sleep : (m.sleep b).blocked.length = m.blocked.length + 1 := by
  simp only [blocked, sleep, List.length_append, List.length_singleton]
  omega

theorem length_blocked_unblock_lt (hb : b ∈ m.blocked) :
    (m.unblock b.ticket).blocked.length < m.blocked.length := by
  have hfilter : (m.unblock b.ticket).blocked = without b.ticket m.blocked := (List.filter_append ..).symm
  rw [hfilter]
  exact length_without_lt hb

theorem length_blocked_recheck (hb : b ∈ m.blocked) :
    (m.recheck b).1.toList.length + (m.recheck b).2.blocked.length ≤ m.blocked.length := by
  have hunblock := length_blocked_unblock_lt hb
  by_cases hgo : m.table.CanGo b
  · rw [recheck_of_granted hgo]
    show 1 + (m.unblock b.ticket).wakeAll.blocked.length ≤ _
    rw [length_blocked_wakeAll]
    omega
  · rw [recheck_of_refused hgo, length_blocked_sleep]
    show 0 + _ ≤ _
    omega

theorem Cascade.length_le (h : Cascade m ended m') :
    ended.length + m'.blocked.length ≤ m.blocked.length := by
  induction h with
  | start => rw [List.length_nil, Nat.zero_add]
  | look b _ hb ih =>
    have := length_blocked_recheck hb
    rw [List.length_append]
    omega

/-- The acquires that ended are those that wait no longer, and all of them were granted. -/
theorem Cascade.mem_ended (h : Cascade m ended m') (hm : m.Reachable) {e : Ended} :
    e ∈ ended ↔ e.granted = true ∧ e.request ∈ m.blocked ∧ e.request ∉ m'.blocked := by
  induction h with
  | start => simp
  | @look _ m' b hprev hb ih =>
    have hticketed := (hprev.reachable hm).ticketed
    have hstart := hprev.blocked_subset hm b hb
    by_cases hgo : m'.table.CanGo b
    · rw [List.mem_append, ih, hticketed.mem_recheck_of_granted hb hgo, recheck_of_granted hgo]
      obtain ⟨request, granted⟩ := e
      simp only [Option.toList, List.mem_singleton, Ended.mk.injEq]
      constructor
      · rintro (⟨hgranted, hin, hout⟩ | ⟨rfl, rfl⟩)
        · exact ⟨hgranted, hin, fun h => hout h.1⟩
        · exact ⟨rfl, hstart, fun h => h.2 rfl⟩
      · rintro ⟨hgranted, hin, hout⟩
        by_cases hrequest : request = b
        · exact .inr ⟨hrequest, hgranted⟩
        · exact .inl ⟨hgranted, hin, fun h => hout ⟨h, hrequest⟩⟩
    · rw [hticketed.mem_recheck_of_refused hb hgo, recheck_of_refused hgo, Option.toList, List.append_nil, ih]

theorem Cascade.grants (h : Cascade m ended m') (hm : m.Reachable) (hp : m.core.1.Peaceful m.core.2) :
    m'.core.1.Peaceful m'.core.2 ∧ Relation.ReflTransGen Grants m.core m'.core := by
  induction h with
  | start => exact ⟨hp, .refl⟩
  | @look _ m' b hprev hb ih =>
    obtain ⟨hp', hgrants⟩ := ih
    have hticketed := (hprev.reachable hm).ticketed
    by_cases hgo : m'.table.CanGo b
    · have hb' : b ∈ m'.core.2 := List.mem_toFinset.2 hb
      rw [core_recheck_of_granted hticketed hb hgo]
      exact ⟨hp'.serve hb' hgo, hgrants.tail ⟨hp', b, hb', hgo, rfl⟩⟩
    · rw [core_recheck_of_refused hticketed hb hgo]
      exact ⟨hp', hgrants⟩

/-! ### Letting all look -/

/-- A blocked acquire that was woken looks. -/
def Looks (m m' : LockManager) : Prop := ∃ b ∈ m.awake, m' = (m.recheck b).2

theorem Looks.lex (h : m.Looks m') :
    Prod.Lex (· < ·) (· < ·) (m'.blocked.length, m'.awake.length) (m.blocked.length, m.awake.length) := by
  obtain ⟨b, hb, rfl⟩ := h
  have hle := length_blocked_recheck (mem_blocked.2 (.inr hb))
  by_cases hgo : m.table.CanGo b
  · rw [recheck_of_granted hgo] at hle ⊢
    exact .left _ _ (Nat.lt_of_succ_le ((Nat.one_add _).symm.trans_le hle))
  · rw [recheck_of_refused hgo] at hle ⊢
    exact .right' _ ((Nat.zero_add _).symm.trans_le hle) (length_without_lt hb)

/-- Woken acquires do not look forever: a look ends an acquire, which wakes the others, or puts one to
sleep. -/
theorem wellFounded_looks : WellFounded fun m' m => Looks m m' :=
  Subrelation.wf Looks.lex (InvImage.wf (fun m : LockManager => (m.blocked.length, m.awake.length))
    (Prod.lex Nat.lt_wfRel Nat.lt_wfRel).wf)

theorem Cascade.trans {m₁ m₂ m₃ : LockManager} {ended₁ ended₂ : List Ended} (h₁ : Cascade m₁ ended₁ m₂)
    (h₂ : Cascade m₂ ended₂ m₃) : Cascade m₁ (ended₁ ++ ended₂) m₃ := by
  induction h₂ with
  | start => rwa [List.append_nil]
  | look b _ hb ih => rw [← List.append_assoc]; exact ih.look b hb

/-- To let all look in their turn is a cascade, after which nobody is awake. -/
theorem cascade_settle (m : LockManager) : Cascade m m.settle.1 m.settle.2 ∧ m.settle.2.awake = [] := by
  have first : ∀ {m : LockManager} {b : Blocked}, m.awake.head? = some b →
      Cascade m (m.recheck b).1.toList (m.recheck b).2 := fun h =>
    Cascade.start.look _ (mem_blocked.2 (.inr (List.mem_of_head? h)))
  fun_induction settle m with
  | case1 m hnone => exact ⟨.start, List.head?_eq_none_iff.1 hnone⟩
  | case2 m b hb hgo ended m' hrest ih =>
    rw [hrest] at ih
    exact ⟨(first hb).trans ih.1, ih.2⟩
  | case3 m b hb hgo ih =>
    have hlook := first hb
    rw [recheck_of_refused hgo] at hlook ih ⊢
    exact ⟨hlook.trans ih.1, ih.2⟩

/-! ### One step from rest -/

/-- Of two acquires that wait for one page, one of them exclusively, at least one has its request in the
queue. -/
def Placed (m : LockManager) : Prop :=
  ∀ b ∈ m.blocked, ∀ c ∈ m.blocked, b ≠ c → b.page = c.page → b.mode = .exclusive →
    b.request ∈ (m.table.locks b.page).waiters ∨ c.request ∈ (m.table.locks b.page).waiters

theorem InLine.placed (h : m.InLine) : m.Placed := fun b hb _ _ _ _ _ => .inl (h.queued b hb)

theorem AtRest.grant {p : PageId} {txn : TxnId} {mode : LockMode} (h : m.AtRest)
    (hsingle : ∀ b ∈ m.blocked, ¬ (b.page = p ∧ b.txn = txn)) :
    ({ m with table := m.table.grant p txn mode } : LockManager).AtRest := by
  intro b hb hgo
  refine h b hb ?_
  rw [CanGo, LockTable.grantable, locks_grant] at hgo
  split at hgo
  · next hpage =>
    rw [CanGo, LockTable.grantable, hpage]
    exact PageLocks.grantable_of_grant (fun htxn => hsingle b hb ⟨hpage, htxn.symm⟩) hgo
  · exact hgo

theorem AtRest.joined (h : m.AtRest) (hm : m.Asked) (hrefused : ¬ m.table.CanGo b)
    (hsingle : ∀ c ∈ m.blocked, ¬ (c.page = b.page ∧ c.txn = b.txn)) : (m.joined b).AtRest := by
  intro c hc hgo
  by_cases hpage : c.page = b.page
  · obtain ⟨d, hd, -, hdgo⟩ := exists_canGo_of_joined hm hrefused hsingle hc hpage hgo
    exact h d hd hdgo
  · refine h c ((mem_sleep.1 hc).resolve_right fun heq => hpage (heq ▸ rfl)) ?_
    rwa [CanGo, LockTable.grantable, LockManager.joined, locks_enqueue, if_neg hpage] at hgo

theorem AtRest.recheck (h : m.AtRest) (hm : m.Ticketed) (hb : b ∈ m.blocked) : (m.recheck b).2.AtRest := by
  intro c hc hgo
  have hrefused := h b hb
  rw [hm.mem_recheck_of_refused hb hrefused] at hc
  rw [recheck_of_refused hrefused] at hgo
  exact h c hc hgo

theorem AtRest.after (h : m.AtRest) (hm : m.Reachable) (ha : a.Enabled m) (hs : a.Single m)
    (hfrees : ¬ a.Frees) : (m.after a).AtRest := by
  cases a with
  | tryAcquire p txn mode =>
    simp only [LockManager.after, tryAcquire, LockTable.tryAcquire]
    split
    · exact h.grant hs
    · exact h
  | acquire p txn mode =>
    simp only [LockManager.after, acquire]
    split
    · exact h.grant hs
    · next hrefused => exact h.joined (b := ⟨m.nextTicket, p, txn, mode⟩) hm.asked hrefused hs
  | recheck b => exact h.recheck hm.ticketed ha
  | _ => exact absurd trivial hfrees

/-- After a step from rest, who can be granted is awake, or another one of the same page. -/
theorem AtRest.alert_after (h : m.AtRest) (hm : m.Reachable) (ha : a.Enabled m) (hs : a.Single m) :
    (m.after a).Alert := by
  by_cases hfrees : a.Frees
  · exact h.alert.after_of_frees hfrees
  · exact (h.after hm ha hs hfrees).alert

/-! ### What a step from rest enables -/

/-- A request of an acquire that waits for the page. -/
def Requests (m : LockManager) (p : PageId) (r : LockRequest) : Prop :=
  ∃ b ∈ m.blocked, b.page = p ∧ b.request = r

theorem OnePerPage.request_inj (hone : m.OnePerPage) {p : PageId} :
    ∀ r r', m.Requests p r → m.Requests p r' → r.txn = r'.txn → r = r' := by
  rintro r r' ⟨b, hb, hpage, rfl⟩ ⟨c, hc, hpage', rfl⟩ htxn
  rw [hone b hb c hc (hpage.trans hpage'.symm) htxn]

theorem AtRest.refused (h : m.AtRest) {p : PageId} :
    ∀ r, m.Requests p r → (m.table.locks p).grantable r.txn r.mode = false := by
  rintro r ⟨b, hb, rfl, rfl⟩
  exact Bool.eq_false_iff.2 (h b hb)

theorem AtRest.peaceful (h : m.AtRest) (hsafe : m.table.Safe) (hone : m.OnePerPage) :
    m.core.1.Peaceful m.core.2 where
  safe := hsafe
  onePerPage b hb c hc := hone b (List.mem_toFinset.1 hb) c (List.mem_toFinset.1 hc)
  shared b hb _ _ _ _ hgo _ := absurd hgo (h b (List.mem_toFinset.1 hb))

theorem AtRest.peaceful_of_release (h : m.AtRest) (hm : m.Reachable) (hone : m.OnePerPage) (hp : m.Placed)
    (hm' : m'.Reachable) (hblocked : ∀ b, b ∈ m'.blocked ↔ b ∈ m.blocked)
    (hlocks : ∀ q, m'.table.locks q = m.table.locks q ∨ ∃ u, m'.table.locks q = (m.table.locks q).release u) :
    m'.core.1.Peaceful m'.core.2 where
  safe := hm'.safe
  onePerPage b hb c hc :=
    hone b ((hblocked b).1 (List.mem_toFinset.1 hb)) c ((hblocked c).1 (List.mem_toFinset.1 hc))
  shared b hb c hc hne hpage hgob hgoc := by
    have hb := (hblocked b).1 (List.mem_toFinset.1 hb)
    have hc := (hblocked c).1 (List.mem_toFinset.1 hc)
    rcases hlocks b.page with hsame | ⟨u, hrelease⟩
    · exact absurd ((canGo_congr hsame).1 hgob) (h b hb)
    · have hreqb : m.Requests b.page b.request := ⟨b, hb, rfl, rfl⟩
      have hreqc : m.Requests b.page c.request := ⟨c, hc, hpage.symm, rfl⟩
      have htxn : b.request.txn ≠ c.request.txn := fun htxn => hne (hone b hb c hc hpage htxn)
      rw [core, CanGo, LockTable.grantable, hrelease] at hgob
      rw [core, CanGo, LockTable.grantable, ← hpage, hrelease] at hgoc
      exact PageLocks.shared_of_release (hm.safe b.page) (hm.asked b.page) hone.request_inj h.refused hreqb
        hreqc htxn (hp b hb c hc hne hpage) hgob hgoc

theorem AtRest.peaceful_of_expire (h : m.AtRest) (hm : m.Reachable) (hone : m.OnePerPage) (hp : m.Placed)
    {d : Blocked} (hd : d ∈ m.blocked) :
    (m.after (.expire d)).core.1.Peaceful (m.after (.expire d)).core.2 := by
  have hblocked : ∀ b ∈ (m.after (.expire d)).core.2, b ∈ m.blocked ∧ b ≠ d := fun b hb =>
    (hm.ticketed.mem_unblock hd).1 (mem_wakeAll.1 (List.mem_toFinset.1 hb))
  have htable : (m.after (.expire d)).table = m.table.withdraw d.page d.txn := by
    have hrefused : m.table.grantable d.page d.txn d.mode = false := Bool.eq_false_iff.2 (h d hd)
    show (m.table.atDeadline d.page d.txn d.mode).2 = _
    rw [atDeadline, hrefused, if_neg Bool.false_ne_true]
  refine ⟨(hm.step (.expire d) hd).safe,
    fun b hb c hc => hone b (hblocked b hb).1 c (hblocked c hc).1, fun b hb c hc hne hpage hgob hgoc => ?_⟩
  obtain ⟨hb, hbd⟩ := hblocked b hb
  obtain ⟨hc, hcd⟩ := hblocked c hc
  rw [core, htable] at hgob hgoc
  by_cases hd' : b.page = d.page
  · have hlocks : (m.table.withdraw d.page d.txn).locks b.page = (m.table.locks b.page).dequeue d.txn := by
      rw [locks_withdraw, if_pos hd', hd']
    rw [CanGo, LockTable.grantable, hlocks] at hgob
    rw [CanGo, LockTable.grantable, ← hpage, hlocks] at hgoc
    have hreq : m.Requests b.page b.request := ⟨b, hb, rfl, rfl⟩
    have htxn : b.request.txn ≠ c.request.txn := fun htxn => hne (hone b hb c hc hpage htxn)
    have hb' : b.request.txn ≠ d.txn := fun htxn => hbd (hone b hb d hd hd' htxn)
    have hc' : c.request.txn ≠ d.txn := fun htxn => hcd (hone c hc d hd (hpage.symm.trans hd') htxn)
    exact PageLocks.shared_of_dequeue (hm.safe b.page) (hm.asked b.page) hone.request_inj h.refused hreq htxn
      hb' hc' (hp b hb c hc hne hpage) hgob hgoc
  · exact absurd ((canGo_congr (by rw [locks_withdraw, if_neg hd'])).1 hgob) (h b hb)

/-- What a step from rest enables does not conflict. -/
theorem AtRest.peaceful_after (h : m.AtRest) (hm : m.Reachable) (hone : m.OnePerPage) (hp : m.Placed)
    (ha : a.Enabled m) (hs : a.Single m) : (m.after a).core.1.Peaceful (m.after a).core.2 := by
  cases a with
  | expire d => exact h.peaceful_of_expire hm hone hp ha
  | release p txn =>
    refine h.peaceful_of_release hm hone hp (hm.step _ ha) (fun b => ?_) fun q => ?_
    · simp only [LockManager.after, release]
      split
      · exact mem_wakeAll
      · exact Iff.rfl
    · show (m.table.release p txn).2.locks q = _ ∨ ∃ u, (m.table.release p txn).2.locks q = _
      rw [locks_release]
      split
      · next hq => exact .inr ⟨txn, by rw [hq]⟩
      · exact .inl rfl
  | releaseAll txn =>
    exact h.peaceful_of_release hm hone hp (hm.step _ ha) (fun _ => mem_wakeAll) fun q =>
      (locks_releaseAll q).imp_right fun hq => ⟨txn, hq⟩
  | _ =>
    exact (h.after hm ha hs not_false).peaceful (hm.step _ ha).safe
      ((turnover_after hm.ticketed ha).onePerPage hone hs)

/-- **The order of wake-ups does not matter.** One step from rest, after which the blocked acquires look in
any order: woken ones do not look forever, and there are not more grants than acquires that wait; once
none is awake the manager is at rest; and whatever the order was, at rest the lock table and the set of
acquires that ended are those that `settle` leads to. -/
theorem AtRest.cascade_confluent (h : m.AtRest) (hm : m.Reachable) (hone : m.OnePerPage) (hp : m.Placed)
    (ha : a.Enabled m) (hs : a.Single m) :
    Acc (fun m' m => Looks m m') (m.after a) ∧
      Cascade (m.after a) (m.after a).settle.1 (m.after a).settle.2 ∧ (m.after a).settle.2.AtRest ∧
      ∀ ended m', Cascade (m.after a) ended m' →
        ended.length ≤ (m.after a).blocked.length ∧ (m'.awake = [] → m'.AtRest) ∧
        (m'.AtRest → m'.table = (m.after a).settle.2.table ∧ ∀ e, e ∈ ended ↔ e ∈ (m.after a).settle.1) := by
  have hreach := hm.step a ha
  have halert := h.alert_after hm ha hs
  have hpeaceful := h.peaceful_after hm hone hp ha hs
  obtain ⟨hsettle, hasleep⟩ := cascade_settle (m.after a)
  have hrest := (hsettle.alert hreach halert).atRest hasleep
  refine ⟨wellFounded_looks.apply _, hsettle, hrest, fun ended m' hc => ⟨?_, ?_, fun hrest' => ?_⟩⟩
  · exact (Nat.le_add_right ..).trans hc.length_le
  · exact (hc.alert hreach halert).atRest
  · have hcore : m'.core = (m.after a).settle.2.core :=
      grants_unique (hc.grants hreach hpeaceful).2 (hsettle.grants hreach hpeaceful).2 hrest'.no_grants
        hrest.no_grants
    have hblocked : ∀ b, b ∈ m'.blocked ↔ b ∈ (m.after a).settle.2.blocked := fun b => by
      rw [← List.mem_toFinset, ← List.mem_toFinset]
      exact Finset.ext_iff.1 (congrArg Prod.snd hcore) b
    refine ⟨congrArg Prod.fst hcore, fun e => ?_⟩
    rw [hc.mem_ended hreach, hsettle.mem_ended hreach, hblocked]

/-- One writer has the page; two readers and another writer wait for it. -/
def crowded : LockManager :=
  [.tryAcquire ⟨0, 0⟩ 1 .exclusive, .acquire ⟨0, 0⟩ 2 .shared, .acquire ⟨0, 0⟩ 3 .shared,
    .acquire ⟨0, 0⟩ 4 .exclusive].foldl after {}

theorem orderly_crowded : crowded.Orderly := by
  have h1 := Orderly.start.step (.tryAcquire ⟨0, 0⟩ 1 .exclusive) trivial (by decide +kernel)
  have h2 := h1.step (.acquire ⟨0, 0⟩ 2 .shared) trivial (by decide +kernel)
  have h3 := h2.step (.acquire ⟨0, 0⟩ 3 .shared) trivial (by decide +kernel)
  exact h3.step (.acquire ⟨0, 0⟩ 4 .exclusive) trivial (by decide +kernel)

/-- The writer gives the page up, and of those that wait the second reader looks first, then the writer,
then the first reader. The readers have the page, as if all had looked in their turn. -/
theorem cascade_of_readers_looking_late :
    ∃ ended m', Cascade (crowded.after (.release ⟨0, 0⟩ 1)) ended m' ∧
      ended.map (fun e => (e.request.txn, e.granted)) = [(3, true), (2, true)] ∧
      m'.table.waitingCount ⟨0, 0⟩ = 1 ∧ m'.table = (crowded.after (.release ⟨0, 0⟩ 1)).settle.2.table ∧
      ∀ e, e ∈ ended ↔ e ∈ (crowded.after (.release ⟨0, 0⟩ 1)).settle.1 := by
  have hline := orderly_crowded.inLine
  have hrest : crowded.AtRest := by decide +kernel
  have hlook := ((Cascade.start (m := crowded.after (.release ⟨0, 0⟩ 1))).look ⟨1, ⟨0, 0⟩, 3, .shared⟩
    (by decide +kernel)).look ⟨2, ⟨0, 0⟩, 4, .exclusive⟩ (by decide +kernel)
  have hcascade := hlook.look ⟨0, ⟨0, 0⟩, 2, .shared⟩ (by decide +kernel)
  obtain ⟨-, -, -, hall⟩ := hrest.cascade_confluent orderly_crowded.reachable hline.onePerPage hline.placed
    (a := .release ⟨0, 0⟩ 1) trivial trivial
  obtain ⟨htable, hended⟩ := (hall _ _ hcascade).2.2 (by decide +kernel)
  exact ⟨_, _, hcascade, by decide +kernel, by decide +kernel, htable, hended⟩

/-- Two acquires of different transactions wait for a page, and the requests of both were withdrawn when a
second acquire of the same transaction timed out. -/
def lostRequests : LockManager :=
  [.tryAcquire ⟨0, 0⟩ 8 .exclusive, .acquire ⟨0, 0⟩ 1 .exclusive, .acquire ⟨0, 0⟩ 2 .exclusive,
    .acquire ⟨0, 0⟩ 1 .exclusive, .expire ⟨2, ⟨0, 0⟩, 1, .exclusive⟩,
    .acquire ⟨0, 0⟩ 2 .exclusive, .expire ⟨3, ⟨0, 0⟩, 2, .exclusive⟩].foldl after {}

theorem reachable_lostRequests : lostRequests.Reachable := by
  have h1 := Reachable.start.step (.tryAcquire ⟨0, 0⟩ 8 .exclusive) trivial
  have h2 := (h1.step (.acquire ⟨0, 0⟩ 1 .exclusive) trivial).step (.acquire ⟨0, 0⟩ 2 .exclusive) trivial
  have h3 := (h2.step (.acquire ⟨0, 0⟩ 1 .exclusive) trivial).step
    (.expire ⟨2, ⟨0, 0⟩, 1, .exclusive⟩) (by decide +kernel)
  exact (h3.step (.acquire ⟨0, 0⟩ 2 .exclusive) trivial).step
    (.expire ⟨3, ⟨0, 0⟩, 2, .exclusive⟩) (by decide +kernel)

/-- Without the condition on requests the order matters: once the page is given up, both acquires may take
it, and the first to look has it. -/
theorem lost_requests_compete :
    ¬ ∀ (m : LockManager) (a : Action), m.Reachable → m.AtRest → m.OnePerPage → a.Enabled m → a.Single m →
      ∀ ended₁ m₁ ended₂ m₂, Cascade (m.after a) ended₁ m₁ → m₁.AtRest → Cascade (m.after a) ended₂ m₂ →
        m₂.AtRest → m₁.table = m₂.table := by
  intro h
  have first := (Cascade.start (m := lostRequests.after (.release ⟨0, 0⟩ 8))).look ⟨0, ⟨0, 0⟩, 1, .exclusive⟩
    (by decide +kernel)
  have second := (Cascade.start (m := lostRequests.after (.release ⟨0, 0⟩ 8))).look ⟨1, ⟨0, 0⟩, 2, .exclusive⟩
    (by decide +kernel)
  have heq := h lostRequests (.release ⟨0, 0⟩ 8) reachable_lostRequests (by decide +kernel) (by decide +kernel)
    trivial trivial _ _ _ _ first (by decide +kernel) second (by decide +kernel)
  have hmode := congrArg (·.mode? ⟨0, 0⟩ 1) heq
  exact absurd hmode (by decide +kernel)

end LockManager

end HeapStore
