import HeapStore.Proofs.Engine.Durability
import HeapStore.Proofs.Engine.Footprint

/-!
# Transactions do not see each other's changes

The rows of a page that a transaction has locked, in whatever mode, are changed by none of the other
transactions' calls (`Reachable.row_of_locked`): who changes a page holds it exclusively.

A page that a transaction has changed is out of reach for the others until the transaction completes. If it
is among the pages that a call asks for, the call fails with the abort of its transaction, and its answer
holds no more than this (`Call.refusal`, `isolation`). No page is left out: unless a call gives locks up, it asks for
every page whose locks it changes (`Call.locks_of_not_asked`).
-/

namespace HeapStore

open Engine

variable {e e' : Engine} {txn owner : TxnId} {p q : PageId}

/-- The answer of a call that failed: the cause, and what the caller had before. -/
def Call.refusal (cause : StorageError) (position : Position) : Call → Reply
  | insert _ _ t _ => .insertion ⟨t, .error cause⟩
  | hasNext s => .more (.error cause) { s with position }
  | next s => .row (.error cause) { s with position }
  | _ => .handle (.error cause)

/-! ### Calls that ask for a page somebody else owns -/

namespace Op

theorem ends_tryPage_refused (hs : e.locks.Safe) (howner : e.locks.mode? p owner = some .exclusive)
    (hne : txn ≠ owner) (t : Tuple) :
    Ends (tryPage txn t p) e (fun _ _ => False) fun cause _ => cause = .transactionAborted txn p := by
  unfold tryPage holdsLock probe
  simp only [ends_bind, ends_get, ends_pure]
  exact (ends_getPage_refused hs howner hne .readOnly).mono_error fun _ _ h => h.1

theorem ends_insertFirstFit_refused {table : TableId} {entry : TableEntry} (he : e.Consistent)
    (ht : e.catalog.byId[table]? = some entry) (hs : e.locks.Safe)
    (howner : e.locks.mode? p owner = some .exclusive) (hne : txn ≠ owner) {t : Tuple} {pages : List Nat}
    (hp : p ∈ asked entry.file txn t table pages e) :
    Ends (insertFirstFit entry.file txn t table pages) e (fun _ _ => False)
      fun cause _ => cause = .transactionAborted txn p := by
  induction pages generalizing e with
  | nil =>
    obtain ⟨new, e₁, hrun, -, hlocks⟩ := exists_run_allocate he ht
    rw [asked, hrun, List.mem_singleton] at hp
    have hs₁ : e₁.locks.Safe := hlocks ▸ hs
    have howner₁ : e₁.locks.mode? p owner = some .exclusive := hlocks ▸ howner
    unfold insertFirstFit insertInto
    rw [ends_bind, ends_of_run hrun, ends_bind, ← hp]
    exact (ends_getPage_refused hs₁ howner₁ hne .readWrite).mono_error fun _ _ h => h.1
  | cons n rest ih =>
    rw [insertFirstFit_cons, ends_bind]
    rw [asked, List.mem_cons] at hp
    cases hp with
    | inl heq =>
      subst heq
      exact (ends_tryPage_refused hs howner hne t).mono_error fun _ _ h => h
    | inr hrest =>
      split at hrest
      · next e₁ hrun =>
        obtain ⟨hquiet, -⟩ : Quiet txn e e₁ ∧ e.Full ⟨table, n⟩ :=
          (ends_of_run hrun).1 (ends_tryPage he txn t ⟨table, n⟩)
        rw [ends_of_run hrun]
        exact ih hquiet.consistent (hquiet.catalog ▸ ht) (hquiet.locks.safe hs)
          ((hquiet.locks.others p owner hne.symm).trans howner) hrest
      · simp at hrest

theorem settles_insert_refused (he : e.Consistent) (hs : e.locks.Safe)
    (howner : e.locks.mode? p owner = some .exclusive) (hne : txn ≠ owner) {table : TableId} {t : Tuple}
    {keep : Bool} (hp : p ∈ (Call.insert txn table t keep).asks e) :
    Settles (insert txn table t) e fun result _ => result = ⟨t, .error (.transactionAborted txn p)⟩ := by
  unfold insert
  rw [settles_bind, settles_run, ends_bind]
  rw [Call.asks] at hp
  cases ht : e.catalog.byId[table]? with
  | none =>
    rw [ht] at hp
    simp at hp
  | some entry =>
    obtain ⟨f, hf, htable, -⟩ := he.opened table entry ht
    simp only [ht, hf] at hp
    unfold insertIntoFile
    rw [ends_tableFile ht, ends_bind, ends_onFiles, FileOp.ends_file hf]
    split at hp
    · next hsame =>
      rw [htable] at hp ⊢
      simp only [hsame, if_true]
      apply (ends_insertFirstFit_refused he ht hs howner hne hp).mono_error
      rintro _ _ rfl
      rfl
    · simp at hp

theorem ends_delete_refused (he : e.Consistent) (hs : e.locks.Safe)
    (howner : e.locks.mode? p owner = some .exclusive) (hne : txn ≠ owner) {r : Option RecordId} {keep : Bool}
    (hp : p ∈ (Call.delete txn r keep).asks e) :
    Ends (delete txn r) e (fun _ _ => False) fun cause _ => cause = .transactionAborted txn p := by
  unfold delete
  cases r with
  | none => simp [Call.asks] at hp
  | some rid =>
    rw [Call.asks] at hp
    split at hp
    · next hcached =>
      obtain rfl := List.mem_singleton.1 hp
      rw [Cache.isCached_eq] at hcached
      obtain ⟨h, hhandle⟩ := Option.isSome_iff_exists.1 hcached
      obtain ⟨page, -, hcopy, -⟩ := he.sound.exists_copy hhandle
      obtain ⟨entry, f, ht, hf, hhas⟩ := he.exists_entry_of_copy hcopy
      unfold deleteFromFile
      dsimp only
      rw [ends_bind, ends_get, Cache.isCached_eq, hhandle, Option.isSome_some, if_pos rfl, ends_bind,
        ends_tableFile ht]
      simp only [ends_bind, ends_onFiles, FileOp.ends_file hf, hhas.1, if_true]
      exact (ends_getPage_refused hs howner hne .readWrite).mono_error fun _ _ h => h.1
    · simp at hp

end Op

namespace Scan

variable {table : TableId}

theorem settles_look_refused (hs : e.locks.Safe) {pos : Position}
    (howner : e.locks.mode? ⟨table, pos.page⟩ owner = some .exclusive) (hne : txn ≠ owner) :
    Settles (look table txn pos) e fun answer _ =>
      answer = some (.error (.transactionAborted txn ⟨table, pos.page⟩), pos) := by
  unfold look
  simp only [settles_bind, settles_get, settles_run, ends_bind]
  apply (Op.ends_getPage_refused hs howner hne .readOnly).mono_error
  rintro _ _ ⟨rfl, -⟩
  rfl

theorem settles_search_refused (he : e.Consistent) (hs : e.locks.Safe)
    (howner : e.locks.mode? p owner = some .exclusive) (hne : txn ≠ owner) {pages : Nat} {pos : Position}
    (hp : p ∈ asked table txn pages pos e) :
    Settles (search table txn pages pos) e fun answer _ =>
      ∃ position, answer = (.error (.transactionAborted txn p), position) := by
  induction pages generalizing e pos with
  | zero => simp [asked] at hp
  | succ pages ih =>
    rw [search_succ, settles_bind]
    rw [asked, List.mem_cons] at hp
    cases hp with
    | inl heq =>
      subst heq
      apply (settles_look_refused hs howner hne).mono
      intro answer e₁ hlook
      rw [hlook]
      exact ⟨pos, rfl⟩
    | inr hrest =>
      split at hrest
      · next e₁ hrun =>
        have hquiet := settles_look he table txn pos
        unfold Settles at hquiet ⊢
        rw [hrun] at hquiet ⊢
        exact ih hquiet.consistent (hquiet.locks.safe hs)
          ((hquiet.locks.others p owner hne.symm).trans howner) hrest
      · simp at hrest

theorem settles_seek_refused (he : e.Consistent) (hs : e.locks.Safe) {s : Scan}
    (howner : e.locks.mode? p owner = some .exclusive) (hne : s.txn ≠ owner) (hp : p ∈ s.asks e) :
    s.isOpen = true ∧ Settles s.seek e fun answer _ =>
      ∃ position, answer = (.error (.transactionAborted s.txn p), { s with position }) := by
  unfold asks at hp
  split at hp
  · next f hopen hf =>
    refine ⟨hopen, ?_⟩
    unfold seek
    rw [settles_bind, settles_get, hf]
    dsimp only
    rw [settles_bind]
    apply (settles_search_refused he hs howner hne hp).mono
    intro answer _ h
    obtain ⟨position, rfl⟩ := h
    exact ⟨position, rfl⟩
  · simp at hp

end Scan

namespace Call

/-- A call that asks for a page which another transaction holds exclusively is refused. -/
theorem settles_refused (he : e.Consistent) (hs : e.locks.Safe) {c : Call}
    (howner : e.locks.mode? p owner = some .exclusive) (hc : c.txn? = some txn) (hne : txn ≠ owner)
    (hp : p ∈ c.asks e) :
    Settles c.run e fun reply _ => ∃ position, reply = c.refusal (.transactionAborted txn p) position := by
  cases c with
  | getPage txn' p' access keep =>
    obtain rfl := Option.some.inj hc
    obtain rfl := List.mem_singleton.1 hp
    unfold run
    rw [settles_bind, HeapStore.settles_run]
    apply (Op.ends_getPage_refused hs howner hne access).mono_error
    rintro _ _ ⟨rfl, -⟩
    exact ⟨⟨0, 0⟩, rfl⟩
  | insert txn' table t keep =>
    obtain rfl := Option.some.inj hc
    unfold run
    rw [settles_bind]
    apply (Op.settles_insert_refused he hs howner hne hp).mono
    rintro _ _ rfl
    exact ⟨⟨0, 0⟩, rfl⟩
  | delete txn' r keep =>
    obtain rfl := Option.some.inj hc
    unfold run
    rw [settles_bind, HeapStore.settles_run]
    apply (Op.ends_delete_refused he hs howner hne hp).mono_error
    rintro _ _ rfl
    exact ⟨⟨0, 0⟩, rfl⟩
  | hasNext s =>
    obtain rfl := Option.some.inj hc
    obtain ⟨hopen, hseek⟩ := Scan.settles_seek_refused he hs howner hne hp
    unfold run Scan.hasNext
    simp only [hopen, Bool.not_true, Bool.false_eq_true, if_false, settles_bind]
    refine hseek.mono fun answer _ h => ?_
    obtain ⟨position, rfl⟩ := h
    exact ⟨position, rfl⟩
  | next s =>
    obtain rfl := Option.some.inj hc
    obtain ⟨hopen, hseek⟩ := Scan.settles_seek_refused he hs howner hne hp
    unfold run Scan.next
    simp only [hopen, Bool.not_true, Bool.false_eq_true, if_false, settles_bind]
    refine hseek.mono fun answer _ h => ?_
    obtain ⟨position, rfl⟩ := h
    exact ⟨position, rfl⟩
  | _ => simp [asks] at hp

end Call

/-! ### Calls of others -/

/-- Calls for other transactions leave the rows of a locked page alone. -/
theorem Engine.Reachable.row_of_locked (h : Reachable e) {held : LockMode}
    (hheld : e.locks.mode? p txn = some held) {c : Call} (hc : c.txn? ≠ some txn) (slot : Nat) :
    (c.after e).row p slot = e.row p slot := by
  have heffect := Call.effect h.consistent c
  have hrows := heffect.rows
  split at hrows
  · have hcontent := hrows.rows p
    cases hcontent with
    | inl hsame => rw [row, row, hsame]
    | inr hnew =>
      obtain ⟨hmissing, slots, hblank⟩ := hnew
      rw [row, row, hmissing, hblank]
      simp [List.getElem?_replicate]
      split <;> rfl
  · next r new _ =>
    obtain ⟨writer, old, e₁, hwriter, hprepared, hwrites⟩ := hrows
    have hne : txn ≠ writer := by
      rintro rfl
      exact hc hwriter
    -- The writer holds its page exclusively, so it is not this one.
    have hother : p ≠ r.page := by
      rintro rfl
      have hheld₁ := (hprepared.locks.others r.page txn hne).trans hheld
      exact hne ((hprepared.locks.safe h.safe).eq_of_exclusive hwrites.owned hheld₁)
    rw [row, row, hwrites.others p hother, hprepared.content_of_ne hother]

/-- Isolation. As long as a transaction has a page locked, calls for others do not change its rows; and
if locks are released only when transactions complete, then from the transaction's first change of a page
to its completion every call for another one that asks for this page fails, and answers only that. A call that
gives no locks up asks for every page whose locks, or requests for them, it changes. -/
theorem isolation :
    (∀ (e : Engine) (txn : TxnId) (p : PageId) (held : LockMode) (c : Call), Reachable e →
      e.locks.mode? p txn = some held → c.txn? ≠ some txn → ∀ slot, (c.after e).row p slot = e.row p slot) ∧
    (∀ (e : Engine) (w : Pending) (txn other : TxnId) (p : PageId) (slot : Nat) (row : Option (List Value))
      (c : Call), StrictRun e w → w txn p slot = some row → c.txn? = some other → other ≠ txn → p ∈ c.asks e →
      ∃ position, c.reply e = c.refusal (.transactionAborted other p) position) ∧
    ∀ (e : Engine) (p : PageId) (c : Call), Reachable e → c.givesUp = false →
      (c.after e).locks.locks p ≠ e.locks.locks p → p ∈ c.asks e := by
  refine ⟨?_, ?_, ?_⟩
  · intro e txn p held c h hheld hc slot
    exact h.row_of_locked hheld hc slot
  · intro e w txn other p slot row c h hw hc hne hp
    have howns := h.owned txn p slot row hw
    exact Call.settles_refused h.reachable.consistent h.reachable.safe howns.lock hc hne hp
  · intro e p c h hgives hchanged
    by_contra hp
    exact hchanged (Call.locks_of_not_asked h.consistent hgives hp)

set_option maxRecDepth 50000 in
/-- While the first tuple's transaction goes on, a flush leaves its page as it is, and another transaction's
insert, which asks for this page first, is refused. The first transaction's own insert has changed the locks of the
second page, so this is one that it asked for. -/
theorem refused_beside_apple :
    (Call.flushAll.after Sample.oneWord).row ⟨0, 0⟩ 0 = Sample.oneWord.row ⟨0, 0⟩ 0 ∧
      (∃ position, (Call.insert 2 0 Sample.pear false).reply Sample.oneWord =
        (Call.insert 2 0 Sample.pear false).refusal (.transactionAborted 2 ⟨0, 0⟩) position) ∧
      ⟨0, 1⟩ ∈ Sample.insertPear.asks Sample.oneWord := by
  have hstart := StrictRun.start .blank { poolPages := 1 }
  have htable := hstart.addTable "words" "words" Sample.schema (newPath_start _ _ _)
  have hone := htable.call Sample.insertApple rfl
  refine ⟨?_, ?_, ?_⟩
  · exact isolation.1 Sample.oneWord 1 ⟨0, 0⟩ .exclusive .flushAll Sample.reachable_oneWord
      (by decide +kernel) (by decide) 0
  · exact isolation.2.1 Sample.oneWord _ 1 2 ⟨0, 0⟩ 0 (some [.string "apple"])
      (.insert 2 0 Sample.pear false) hone (by decide +kernel) rfl (by decide) (by decide +kernel)
  · refine isolation.2.2 Sample.oneWord ⟨0, 1⟩ Sample.insertPear Sample.reachable_oneWord rfl fun hsame => ?_
    have hmode : Sample.twoWords.locks.mode? ⟨0, 1⟩ 1 ≠ Sample.oneWord.locks.mode? ⟨0, 1⟩ 1 := by decide +kernel
    exact hmode (congrArg (fun locks : PageLocks => locks.holders[(1 : TxnId)]?) hsame)

end HeapStore
