import HeapStore.Lock.Table

/-!
# Who holds a page, and how

What the operations on locks do to the modes in which transactions hold pages.

* **Order of modes.** `a ≤ b` says that whoever holds `b` has all that `a` gives: exclusive is above
  shared. A grant raises a holder's mode (`le_join`), so it never takes anything away.
* **Safety of a page** (`PageLocks.Safe`): an exclusive holder is alone. A request that can be granted is
  either covered by what the transaction holds, or all holders but the transaction are shared and so is
  the request (`of_grantable`); hence a grant keeps the page safe (`Safe.grant`).
* **The table.** `mode?_grant`, `mode?_release` and their like say what an operation on one page does to
  the mode of every transaction on every page.
* **Changes made for one transaction.** `OnlyFor txn t t'` says that nobody else's mode changed on the
  way from `t` to `t'` and that safety was kept, `Gains txn t t'` that the transaction itself lost nothing
  either. Both chain; every operation but a release is a `Gains`.
-/

namespace HeapStore

namespace LockMode

/-- Exclusive is above shared. -/
instance instLE : LE LockMode := ⟨fun a b => a = exclusive → b = exclusive⟩

theorem le_refl (a : LockMode) : a ≤ a := fun h => h

theorem le_trans {a b c : LockMode} (hab : a ≤ b) (hbc : b ≤ c) : a ≤ c := fun h => hbc (hab h)

theorem le_join (a b : LockMode) : a ≤ a.join b := by
  rintro rfl
  cases b <;> rfl

theorem join_eq_left_iff {a b : LockMode} : a.join b = a ↔ b ≤ a := by
  cases a <;> cases b <;> simp [join, LE.le]

end LockMode

namespace PageLocks

variable {l : PageLocks} {txn : TxnId} {mode : LockMode}

/-- An exclusive holder is alone. -/
def Safe (l : PageLocks) : Prop :=
  ∀ (t u : TxnId) (held : LockMode), l.holders[t]? = some .exclusive → l.holders[u]? = some held → u = t

theorem safe_empty : Safe {} := by
  intro t u held ht
  simp at ht

/-- The mode of the transaction once it is granted one more. -/
def granted (l : PageLocks) (txn : TxnId) (mode : LockMode) : LockMode :=
  (l.holders[txn]?.map (·.join mode)).getD mode

/-- What was asked for is granted, whatever was held before. -/
theorem mode_le_granted : mode ≤ l.granted txn mode := by
  unfold granted
  cases l.holders[txn]? with
  | none => exact LockMode.le_refl mode
  | some held => cases held <;> cases mode <;> simp [LockMode.join, LE.le]

theorem holders_grant (u : TxnId) :
    (l.grant txn mode).holders[u]? = if u = txn then some (l.granted txn mode) else l.holders[u]? := by
  simp only [grant, granted, Std.ExtTreeMap.getElem?_insert, Std.compare_eq_iff_eq, eq_comm (a := txn)]

theorem holders_release (u : TxnId) :
    (l.release txn).holders[u]? = if u = txn then none else l.holders[u]? := by
  simp only [release, Std.ExtTreeMap.getElem?_erase, Std.compare_eq_iff_eq, eq_comm (a := txn)]

theorem eq_of_size_one {u : TxnId} {held : LockMode} (hsize : l.holders.size = 1)
    (htxn : l.holders.contains txn = true) (hu : l.holders[u]? = some held) : u = txn := by
  rw [← Std.ExtTreeMap.length_toList, List.length_eq_one_iff] at hsize
  obtain ⟨⟨v, mv⟩, hv⟩ := hsize
  have mem_iff : ∀ w m, l.holders[w]? = some m ↔ (w, m) = (v, mv) := by
    intro w m
    rw [← Std.ExtTreeMap.mem_toList_iff_getElem?_eq_some, hv, List.mem_singleton]
  rw [Std.ExtTreeMap.contains_eq_isSome_getElem?] at htxn
  obtain ⟨m, hm⟩ := Option.isSome_iff_exists.1 htxn
  have h1 := (mem_iff u held).1 hu
  have h2 := (mem_iff txn m).1 hm
  rw [(Prod.mk.inj h1).1, (Prod.mk.inj h2).1]

/-- The transaction has the page in this mode or in a higher one. -/
def Has (l : PageLocks) (txn : TxnId) (mode : LockMode) : Prop :=
  ∃ held, l.holders[txn]? = some held ∧ mode ≤ held

/-- What the others hold goes with the request. -/
def Admits (l : PageLocks) (txn : TxnId) (mode : LockMode) : Prop :=
  ∀ u held, l.holders[u]? = some held → u ≠ txn → mode = .shared ∧ held = .shared

theorem alreadyHolds_iff : l.alreadyHolds txn mode = true ↔ l.Has txn mode := by
  unfold alreadyHolds Has
  cases l.holders[txn]? with
  | none => simp
  | some held => cases held <;> cases mode <;> simp [LE.le]

theorem compatible_iff : l.compatible txn mode = true ↔ l.Admits txn mode := by
  have hall : ∀ f : TxnId × LockMode → Bool, l.holders.toList.all f = true ↔
      ∀ u held, l.holders[u]? = some held → f (u, held) = true := by
    intro f
    simp only [List.all_eq_true, Prod.forall, Std.ExtTreeMap.mem_toList_iff_getElem?_eq_some]
  unfold compatible Admits
  cases mode with
  | shared =>
    rw [hall]
    refine forall₃_congr fun u held _ => ?_
    simp only [Bool.or_eq_true, beq_iff_eq, decide_eq_true_eq, true_and]
    exact Decidable.or_iff_not_imp_left
  | exclusive =>
    rw [hall]
    refine forall₃_congr fun u held _ => ?_
    simp only [beq_iff_eq, reduceCtorEq, false_and, imp_false, Decidable.not_not]

/-- The only holder is one of the page's holders, and nobody else is. -/
theorem isUpgrade_iff :
    l.isUpgrade txn mode = true ↔ mode = .exclusive ∧ l.Has txn .shared ∧ l.Admits txn .exclusive := by
  simp only [isUpgrade, Bool.and_eq_true, decide_eq_true_eq, beq_iff_eq, and_assoc]
  refine and_congr_right fun _ => ⟨?_, ?_⟩
  · rintro ⟨hsize, hholds⟩
    refine ⟨?_, fun u held hu hne => absurd (eq_of_size_one hsize hholds hu) hne⟩
    rw [Std.ExtTreeMap.contains_eq_isSome_getElem?] at hholds
    obtain ⟨held, hheld⟩ := Option.isSome_iff_exists.1 hholds
    exact ⟨held, hheld, by simp [LE.le]⟩
  · rintro ⟨⟨held, hheld, -⟩, hothers⟩
    have hsole : l.holders = (∅ : Std.ExtTreeMap TxnId LockMode).insert txn held := by
      apply Std.ExtTreeMap.ext_getElem?
      intro u
      simp only [Std.ExtTreeMap.getElem?_insert, Std.compare_eq_iff_eq, Std.ExtTreeMap.getElem?_empty]
      split
      · next h => rw [← h, hheld]
      · next h =>
        cases hu : l.holders[u]? with
        | none => rfl
        | some m => exact absurd (hothers u m hu (Ne.symm h)).1 (by simp)
    have hsize : l.holders.size = 1 := by rw [hsole, Std.ExtTreeMap.size_insert]; simp
    exact ⟨hsize, by rw [hsole]; simp⟩

/-- Why a request can be granted: the transaction has that much already, or the other holders and the
request are all shared. -/
theorem of_grantable (h : l.grantable txn mode = true) :
    (∃ held, l.holders[txn]? = some held ∧ mode ≤ held) ∨
      ∀ u held, l.holders[u]? = some held → u ≠ txn → mode = .shared ∧ held = .shared := by
  simp only [grantable, Bool.or_eq_true, Bool.and_eq_true] at h
  rcases h with (hhas | hup) | ⟨hcompat, -⟩
  · exact .inl (alreadyHolds_iff.1 hhas)
  · obtain ⟨rfl, -, hothers⟩ := isUpgrade_iff.1 hup
    exact .inr hothers
  · exact .inr (compatible_iff.1 hcompat)

/-- What the transaction already has, a grant does not change. -/
theorem holders_grant_of_le {held : LockMode} (hheld : l.holders[txn]? = some held) (hle : mode ≤ held)
    (u : TxnId) : (l.grant txn mode).holders[u]? = l.holders[u]? := by
  rw [holders_grant]
  split
  · next h =>
    rw [h, hheld, granted, hheld, Option.map_some, Option.getD_some, LockMode.join_eq_left_iff.2 hle]
  · rfl

theorem Safe.grant (hs : l.Safe) (hg : l.grantable txn mode = true) : (l.grant txn mode).Safe := by
  intro t u held ht hu
  rcases of_grantable hg with ⟨m, hm, hle⟩ | hothers
  · rw [holders_grant_of_le hm hle] at ht hu
    exact hs t u held ht hu
  · rw [holders_grant] at ht hu
    split at ht <;> split at hu
    · next h1 h2 => rw [h1, h2]
    · next h1 h2 =>
      -- The request is shared, so the transaction held exclusive before, and `u` was there as well.
      obtain ⟨rfl, rfl⟩ := hothers u held hu h2
      cases hm : l.holders[txn]? with
      | none => simp [granted, hm] at ht
      | some m =>
        cases m with
        | shared => simp [granted, hm, LockMode.join] at ht
        | exclusive => exact absurd (hs txn u _ hm hu) h2
    · next h1 h2 => exact absurd (hothers t _ ht h1).2 (by simp)
    · exact hs t u held ht hu

theorem Safe.release (hs : l.Safe) : (l.release txn).Safe := by
  intro t u held ht hu
  rw [holders_release] at ht hu
  split at ht
  · simp at ht
  · split at hu
    · simp at hu
    · exact hs t u held ht hu

/-- A page that is held exclusively is granted to nobody else. -/
theorem Safe.not_grantable {t : TxnId} (hs : l.Safe) (ht : l.holders[t]? = some .exclusive)
    (hne : txn ≠ t) : l.grantable txn mode = false := by
  rw [Bool.eq_false_iff]
  intro h
  rcases of_grantable h with ⟨held, hheld, -⟩ | hothers
  · exact hne (hs t txn held ht hheld)
  · exact absurd (hothers t _ ht (Ne.symm hne)).2 (by simp)

end PageLocks

namespace LockTable

variable {t : LockTable} {p : PageId} {txn : TxnId} {mode : LockMode}

/-! ### Locks of a page after an operation -/

theorem eq_empty_of_isIdle {l : PageLocks} (h : l.isIdle = true) : l = {} := by
  simp only [PageLocks.isIdle, Bool.and_eq_true, Std.ExtTreeMap.isEmpty_iff, List.isEmpty_iff] at h
  obtain ⟨holders, waiters⟩ := l
  obtain ⟨rfl, rfl⟩ := h
  rfl

theorem locks_setLocks (l : PageLocks) (q : PageId) :
    (t.setLocks p l).locks q = if q = p then l else t.locks q := by
  unfold setLocks locks
  by_cases hidle : l.isIdle = true
  · simp only [hidle, if_true, Std.ExtTreeMap.getD_erase, Std.compare_eq_iff_eq, eq_comm (a := p)]
    rw [eq_empty_of_isIdle hidle]
  · simp only [hidle, Bool.false_eq_true, if_false, Std.ExtTreeMap.getD_insert, Std.compare_eq_iff_eq,
      eq_comm (a := p)]

theorem locks_grant (q : PageId) :
    (t.grant p txn mode).locks q = if q = p then (t.locks p).grant txn mode else t.locks q := by
  simp only [grant, locks, Std.ExtTreeMap.getD_insert, Std.compare_eq_iff_eq, eq_comm (a := p)]

theorem locks_forget (q : PageId) : (t.forget p txn).locks q = t.locks q := by
  unfold forget
  split <;> rfl

theorem locks_release (q : PageId) :
    (t.release p txn).2.locks q = if q = p then (t.locks p).release txn else t.locks q := by
  cases hp : t.pages[p]? with
  | none =>
    have hempty : t.locks p = {} := by rw [locks, Std.ExtTreeMap.getD_eq_getD_getElem?, hp]; rfl
    simp only [release, hp]
    split
    · next h =>
      rw [h, hempty]
      simp [PageLocks.release]
    · rfl
  | some l =>
    have hl : t.locks p = l := by rw [locks, Std.ExtTreeMap.getD_eq_getD_getElem?, hp]; rfl
    simp only [release, hp]
    rw [locks_forget, locks_setLocks, hl]

theorem release_fst : (t.release p txn).1 = t.holds p txn := by
  have hlocks : t.locks p = (t.pages[p]?).getD {} := Std.ExtTreeMap.getD_eq_getD_getElem?
  rw [holds, mode?, hlocks, ← Std.ExtTreeMap.contains_eq_isSome_getElem?]
  unfold release
  cases t.pages[p]? with
  | none => simp
  | some l => rfl

/-! ### Modes after an operation -/

theorem mode?_eq_of_holders {t' : LockTable} {q : PageId} (h : (t'.locks q).holders = (t.locks q).holders)
    (u : TxnId) : t'.mode? q u = t.mode? q u := by
  rw [mode?, mode?, h]

theorem mode?_grant (q : PageId) (u : TxnId) :
    (t.grant p txn mode).mode? q u =
      if q = p ∧ u = txn then some ((t.locks p).granted txn mode) else t.mode? q u := by
  rw [mode?, locks_grant]
  by_cases hq : q = p
  · subst hq
    simp only [if_true, PageLocks.holders_grant, true_and, mode?]
  · simp only [hq, if_false, false_and, mode?]

theorem mode?_enqueue (q : PageId) (u : TxnId) : (t.enqueue p txn mode).mode? q u = t.mode? q u := by
  apply mode?_eq_of_holders
  rw [enqueue, locks_setLocks]
  split
  · next h => rw [h, PageLocks.enqueue]
  · rfl

theorem mode?_withdraw (q : PageId) (u : TxnId) : (t.withdraw p txn).mode? q u = t.mode? q u := by
  apply mode?_eq_of_holders
  rw [withdraw, locks_setLocks]
  split
  · next h => rw [h, PageLocks.dequeue]
  · rfl

theorem mode?_release (q : PageId) (u : TxnId) :
    (t.release p txn).2.mode? q u = if q = p ∧ u = txn then none else t.mode? q u := by
  rw [mode?, locks_release]
  by_cases hq : q = p
  · subst hq
    simp only [if_true, PageLocks.holders_release, true_and, mode?]
  · simp only [hq, if_false, false_and, mode?]

theorem le_granted {held : LockMode} (h : t.mode? p txn = some held) :
    held ≤ (t.locks p).granted txn mode := by
  rw [mode?] at h
  rw [PageLocks.granted, h, Option.map_some, Option.getD_some]
  exact LockMode.le_join held mode

/-- A request that leaves the queue does not change what a grant gives. -/
theorem mode?_withdraw_grant (q : PageId) (u : TxnId) :
    ((t.withdraw p txn).grant p txn mode).mode? q u = (t.grant p txn mode).mode? q u := by
  have hgranted : ((t.withdraw p txn).locks p).granted txn mode = (t.locks p).granted txn mode := by
    have h : ((t.withdraw p txn).locks p).holders[txn]? = (t.locks p).holders[txn]? := mode?_withdraw p txn
    rw [PageLocks.granted, PageLocks.granted, h]
  rw [mode?_grant, mode?_grant, hgranted, mode?_withdraw]

/-! ### Safety of the table -/

/-- On every page an exclusive holder is alone. -/
def Safe (t : LockTable) : Prop := ∀ p, (t.locks p).Safe

theorem safe_empty : Safe {} := fun p => by
  have h : ({} : LockTable).locks p = {} := by simp [locks]
  rw [h]
  exact PageLocks.safe_empty

theorem Safe.eq_of_exclusive {u v : TxnId} {held : LockMode} (h : t.Safe)
    (hu : t.mode? p u = some .exclusive) (hv : t.mode? p v = some held) : v = u :=
  h p u v held hu hv

/-- Taking holders away keeps a table safe. -/
theorem Safe.of_subset {t' : LockTable} (h : t.Safe)
    (hsub : ∀ q u held, t'.mode? q u = some held → t.mode? q u = some held) : t'.Safe :=
  fun q u v held hu hv => h q u v held (hsub q u _ hu) (hsub q v held hv)

theorem Safe.grant (h : t.Safe) (hg : t.grantable p txn mode = true) : (t.grant p txn mode).Safe := by
  intro q
  rw [locks_grant]
  split
  · exact (h p).grant hg
  · exact h q

/-! ### Changes made for one transaction -/

/-- Only the transaction's locks changed, and safety was kept. -/
structure OnlyFor (txn : TxnId) (t t' : LockTable) : Prop where
  safe : t.Safe → t'.Safe
  others : ∀ q u, u ≠ txn → t'.mode? q u = t.mode? q u

/-- Only the transaction's locks changed, and none of its modes was lowered. -/
structure Gains (txn : TxnId) (t t' : LockTable) : Prop extends OnlyFor txn t t' where
  own : ∀ q held, t.mode? q txn = some held → ∃ held', t'.mode? q txn = some held' ∧ held ≤ held'

theorem OnlyFor.trans {t₁ t₂ t₃ : LockTable} (h : OnlyFor txn t₁ t₂) (h' : OnlyFor txn t₂ t₃) :
    OnlyFor txn t₁ t₃ where
  safe := h'.safe ∘ h.safe
  others q u hu := (h'.others q u hu).trans (h.others q u hu)

theorem Gains.refl (txn : TxnId) (t : LockTable) : Gains txn t t where
  safe := id
  others _ _ _ := rfl
  own _ _ h := ⟨_, h, LockMode.le_refl _⟩

theorem Gains.trans {t₁ t₂ t₃ : LockTable} (h : Gains txn t₁ t₂) (h' : Gains txn t₂ t₃) :
    Gains txn t₁ t₃ where
  toOnlyFor := h.toOnlyFor.trans h'.toOnlyFor
  own q held hheld := by
    obtain ⟨held', hheld', hle⟩ := h.own q held hheld
    obtain ⟨held'', hheld'', hle'⟩ := h'.own q held' hheld'
    exact ⟨held'', hheld'', LockMode.le_trans hle hle'⟩

theorem Gains.of_mode?_eq {t' : LockTable} (h : ∀ q u, t'.mode? q u = t.mode? q u) : Gains txn t t' where
  safe hs := hs.of_subset fun q u _ hu => (h q u).symm.trans hu
  others q u _ := h q u
  own q _ hheld := ⟨_, (h q txn).trans hheld, LockMode.le_refl _⟩

theorem Gains.grant (hg : t.grantable p txn mode = true) : Gains txn t (t.grant p txn mode) where
  safe hs := hs.grant hg
  others q u hu := by rw [mode?_grant, if_neg fun h => hu h.2]
  own q held hheld := by
    rw [mode?_grant]
    split
    · next h => exact ⟨_, rfl, le_granted (h.1 ▸ hheld)⟩
    · exact ⟨held, hheld, LockMode.le_refl held⟩

theorem Gains.withdraw_grant (hg : t.grantable p txn mode = true) :
    Gains txn t ((t.withdraw p txn).grant p txn mode) :=
  (Gains.grant hg).trans (.of_mode?_eq mode?_withdraw_grant)

theorem Gains.tryAcquire : Gains txn t (t.tryAcquire p txn mode).2 := by
  unfold LockTable.tryAcquire
  split
  · next hg => exact .grant hg
  · exact .refl txn t

theorem Gains.atDeadline : Gains txn t (t.atDeadline p txn mode).2 := by
  unfold LockTable.atDeadline
  split
  · next hg => exact .withdraw_grant hg
  · exact .of_mode?_eq mode?_withdraw

theorem Gains.acquireAlone : Gains txn t (t.acquireAlone p txn mode).2 := by
  unfold LockTable.acquireAlone
  split
  · next hg => exact .grant hg
  · exact (Gains.of_mode?_eq mode?_enqueue).trans .atDeadline

theorem OnlyFor.release : OnlyFor txn t (t.release p txn).2 where
  safe hs := hs.of_subset fun q u held hu => by
    rw [mode?_release] at hu
    split at hu
    · simp at hu
    · exact hu
  others q u hu := by rw [mode?_release, if_neg fun h => hu h.2]

theorem OnlyFor.releaseAll : OnlyFor txn t (t.releaseAll txn) := by
  have fold : ∀ (pages : List PageId) (t : LockTable),
      OnlyFor txn t (pages.foldl (fun t p => (t.release p txn).2) t) := by
    intro pages
    induction pages with
    | nil => exact fun t => (Gains.refl txn t).toOnlyFor
    | cons p pages ih => exact fun t => OnlyFor.release.trans (ih _)
  have hforget : ∀ q u, ({ t with held := t.held.erase txn } : LockTable).mode? q u = t.mode? q u :=
    fun _ _ => rfl
  exact (Gains.of_mode?_eq hforget).toOnlyFor.trans (fold _ _)

/-- Giving back a lock that was taken on the way leaves what was held at the start. -/
theorem Gains.release_of_not_held {t' : LockTable} (h : Gains txn t t') (hp : t.mode? p txn = none) :
    Gains txn t (t'.release p txn).2 where
  toOnlyFor := h.toOnlyFor.trans .release
  own q held hheld := by
    obtain ⟨held', hheld', hle⟩ := h.own q held hheld
    refine ⟨held', ?_, hle⟩
    rw [mode?_release, if_neg, hheld']
    rintro ⟨rfl, -⟩
    rw [hp] at hheld
    simp at hheld

/-! ### An acquire next to which nobody runs -/

theorem mode?_acquireAlone_of_granted {t' : LockTable} (h : t.acquireAlone p txn mode = (true, t')) :
    ∃ held, t'.mode? p txn = some held ∧ mode ≤ held := by
  unfold acquireAlone atDeadline at h
  split at h
  · obtain rfl := (Prod.mk.inj h).2
    exact ⟨_, by rw [mode?_grant, if_pos ⟨rfl, rfl⟩], PageLocks.mode_le_granted⟩
  · split at h
    · obtain rfl := (Prod.mk.inj h).2
      exact ⟨_, by rw [mode?_withdraw_grant, mode?_grant, if_pos ⟨rfl, rfl⟩], PageLocks.mode_le_granted⟩
    · simp at h

/-- The locks of the other pages stay as they are, queues included. -/
theorem locks_acquireAlone_of_ne {q : PageId} (hq : q ≠ p) :
    (t.acquireAlone p txn mode).2.locks q = t.locks q := by
  have hqueued : (t.enqueue p txn mode).locks q = t.locks q := by rw [enqueue, locks_setLocks, if_neg hq]
  have hwithdrawn : ((t.enqueue p txn mode).withdraw p txn).locks q = t.locks q := by
    rw [withdraw, locks_setLocks, if_neg hq, hqueued]
  unfold acquireAlone atDeadline
  split
  · rw [locks_grant, if_neg hq]
  · split
    · rw [locks_grant, if_neg hq, hwithdrawn]
    · rw [hwithdrawn]

/-- While somebody else holds the page exclusively, the request is refused, also at its deadline. -/
theorem Safe.acquireAlone_refused {u : TxnId} (hs : t.Safe) (hu : t.mode? p u = some .exclusive)
    (hne : txn ≠ u) (mode : LockMode) : (t.acquireAlone p txn mode).1 = false := by
  have hqueued : ((t.enqueue p txn mode).locks p).holders[u]? = some .exclusive :=
    (mode?_enqueue p u).trans hu
  have hsafe : (t.enqueue p txn mode).Safe :=
    hs.of_subset fun q v held hv => (mode?_enqueue q v).symm.trans hv
  have h1 : t.grantable p txn mode = false := (hs p).not_grantable hu hne
  have h2 : (t.enqueue p txn mode).grantable p txn mode = false := (hsafe p).not_grantable hqueued hne
  simp [acquireAlone, atDeadline, h1, h2]

end LockTable

end HeapStore
