import HeapStore.Proofs.Engine.AtWork
import HeapStore.Proofs.Engine.Footprint
import HeapStore.Proofs.Engine.Searches

/-!
# Locks that inserts and scans leave behind

An insert looks at one page after the other and a scan does too, and both give back locks that they needed for a look
only. While no request waits, what is left of this is exact: an insert leaves the transaction the exclusive lock on the
page that took the tuple (`Op.settles_insert_takes`), and a scan leaves it a shared lock on each page with tuples that
it came by and held no lock on (`Scan.settles_seek_takes`). For the scan no page may have bits set past its last slot,
as with tables that were built from empty files; `Engine.Grown.lock_footprint` puts this together.
-/

namespace HeapStore

namespace Engine

variable {e e' : Engine} {txn : TxnId} {p q : PageId}

/-- A consistent engine where no request waits for a lock. -/
structure Unhindered (e : Engine) : Prop where
  consistent : e.Consistent
  coherent : e.locks.Coherent
  unawaited : e.locks.Unawaited

theorem Unhindered.of_same_locks (h : e.Unhindered) (he' : e'.Consistent) (hlocks : e'.locks = e.locks) :
    e'.Unhindered :=
  ⟨he', hlocks ▸ h.coherent, hlocks ▸ h.unawaited⟩

theorem Unhindered.of_grant {mode : LockMode} (h : e.Unhindered) (he' : e'.Consistent)
    (hlocks : e'.locks = e.locks.grant p txn mode) : e'.Unhindered :=
  ⟨he', hlocks ▸ h.coherent.grant p txn mode, hlocks ▸ h.unawaited.grant p txn mode⟩

/-- Does the page hold a tuple? -/
def storesTuple (e : Engine) (p : PageId) : Bool :=
  match e.content p with
  | .ok rows => rows.any Option.isSome
  | .error _ => false

theorem storesTuple_iff : e.storesTuple p = true ↔ ∃ slot values, e.row p slot = some values := by
  unfold storesTuple row
  cases e.content p with
  | error cause => simp
  | ok rows =>
    dsimp only
    rw [List.any_eq_true]
    constructor
    · rintro ⟨row, hmem, hsome⟩
      obtain ⟨slot, hslot⟩ := List.mem_iff_getElem?.1 hmem
      obtain ⟨values, rfl⟩ := Option.isSome_iff_exists.1 hsome
      exact ⟨slot, values, by rw [hslot, Option.join_some]⟩
    · rintro ⟨slot, values, hrow⟩
      exact ⟨some values, List.mem_of_getElem? (Option.join_eq_some_iff.1 hrow), rfl⟩

theorem storesTuple_congr (h : e'.content p = e.content p) : e'.storesTuple p = e.storesTuple p := by
  rw [storesTuple, storesTuple, h]

theorem storesTuple_of_copy {page : HeapPage} (hcopy : e.cache.copy? p = some page) :
    e.storesTuple p = true ↔ ∃ slot, (page.tuple? slot).isSome = true := by
  rw [storesTuple_iff]
  refine exists_congr fun slot => ?_
  rw [row_of_copy hcopy, ← Option.isSome_iff_exists, Option.isSome_map]

/-- Does the transaction get a lock on the page when a scan comes by? -/
def takes (e : Engine) (txn : TxnId) (p : PageId) : Bool := !e.locks.holds p txn && e.storesTuple p

/-- The locks after a scan came by the pages. -/
def locksPast (e : Engine) (txn : TxnId) (pages : List PageId) : LockTable :=
  e.locks.grantEach txn .shared (pages.filter (e.takes txn))

theorem Unhindered.of_locksPast {pages : List PageId} (h : e.Unhindered) (he' : e'.Consistent)
    (hlocks : e'.locks = e.locksPast txn pages) : e'.Unhindered := by
  refine ⟨he', hlocks ▸ h.coherent.grantEach txn .shared _, fun q => ?_⟩
  rw [hlocks, locksPast, LockTable.waiters_grantEach]
  exact h.unawaited q

theorem Unhindered.locksPast_of_stores (h : e.Unhindered) (hstores : e.storesTuple p = true) :
    e.locksPast txn [p] = e.locks.grant p txn .shared := by
  rw [locksPast, List.filter_singleton, takes, hstores, Bool.and_true]
  cases hheld : e.locks.holds p txn with
  | false => rfl
  | true => exact (h.coherent.grant_shared_of_held hheld).symm

theorem locksPast_of_not_stores (hnone : e.storesTuple p = false) : e.locksPast txn [p] = e.locks := by
  rw [locksPast, List.filter_singleton, takes, hnone, Bool.and_false]
  rfl

theorem locksPast_cons {rest : List PageId} (hcontent : ∀ q, e'.content q = e.content q)
    (hlocks : e'.locks = e.locksPast txn [p]) (hp : p ∉ rest) :
    e.locksPast txn (p :: rest) = e'.locksPast txn rest := by
  have hmode : ∀ q ∈ rest, e'.locks.mode? q txn = e.locks.mode? q txn := fun q hq => by
    have hne : q ≠ p := fun heq => hp (heq ▸ hq)
    rw [hlocks, locksPast, List.filter_singleton]
    cases e.takes txn p with
    | true => exact (LockTable.mode?_grant q txn).trans (if_neg fun h => hne h.1)
    | false => rfl
  have hsame : rest.filter (e'.takes txn) = rest.filter (e.takes txn) := List.filter_congr fun q hq => by
    rw [takes, takes, LockTable.holds_congr (hmode q hq), storesTuple_congr (hcontent q)]
  calc e.locksPast txn (p :: rest)
      = e.locks.grantEach txn .shared ([p].filter (e.takes txn) ++ rest.filter (e.takes txn)) := by
        rw [← List.filter_append]
        rfl
    _ = (e.locksPast txn [p]).grantEach txn .shared (rest.filter (e.takes txn)) := List.foldl_append
    _ = e'.locksPast txn rest := by rw [← hlocks, ← hsame, locksPast]

end Engine

open Engine

variable {e e' : Engine} {txn : TxnId} {p q : PageId} {table : TableId}

/-! ### Inserting -/

namespace Op

/-- Who gets a page has been granted its lock, and nothing else has happened to the locks. -/
theorem ends_getPage_takes (h : e.Unhindered) (txn : TxnId) (p : PageId) (access : Access) :
    Ends (getPage txn p access) e (fun _ e' => e'.locks = e.locks.grant p txn access.lockMode) fun _ _ => True := by
  unfold getPage holdsLock lock
  simp only [ends_bind, ends_get, ends_pure, ends_tryCatch, ends_modify]
  cases hgranted : (e.locks.acquireAlone p txn access.lockMode).1 with
  | false => trivial
  | true =>
    have hlocked := (h.consistent.keeps_locks (e.locks.acquireAlone p txn access.lockMode).2).consistent
    refine (ends_fetch hlocked p).mono ?_ fun cause _ _ => ?_
    · rintro _ e' ⟨-, hlocks, -⟩
      exact hlocks.trans (h.unawaited.acquireAlone_eq hgranted)
    · cases e.locks.holds p txn <;> trivial

theorem ends_probe_takes (h : e.Unhindered) (txn : TxnId) (p : PageId) :
    Ends (probe txn p) e
      (fun room e' => Quiet txn e e' ∧ e'.locks = e.locks.grant p txn .shared ∧ (room = true → ¬ e.Full p))
      fun _ _ => True := by
  unfold probe
  rw [ends_bind]
  refine ((ends_getPage h.consistent txn p .readOnly).and (ends_getPage_takes h txn p .readOnly)).mono ?_
    fun _ _ _ => trivial
  rintro handle e₁ ⟨⟨hquiet, hhandle, -⟩, hlocks⟩
  obtain ⟨page, hpage, hcopy, -⟩ := hquiet.consistent.sound.exists_copy hhandle
  rw [ends_bind, ends_page hpage, ends_pure]
  refine ⟨hquiet, hlocks, fun hroom hfull => ?_⟩
  obtain ⟨hwf, -⟩ := hquiet.consistent.fits _ page hcopy
  obtain ⟨slot, hslot⟩ := hwf.numFree_pos_iff.1 (of_decide_eq_true hroom)
  exact ((full_congr (hquiet.content p)).2 hfull).not_isFree slot ((isFree_of_copy hcopy).2 hslot)

/-- A page that takes the tuple is locked exclusively; one that is passed is locked as before. -/
theorem ends_tryPage_takes (h : e.Unhindered) (txn : TxnId) (t : Tuple) (p : PageId) :
    Ends (tryPage txn t p) e
      (fun result e' => e'.locks = if result.isSome then e.locks.grant p txn .exclusive else e.locks)
      fun _ _ => True := by
  unfold tryPage holdsLock
  simp only [ends_bind, ends_get, ends_pure]
  refine (ends_probe_takes h txn p).mono ?_ fun _ _ _ => trivial
  rintro room e₁ ⟨hquiet, hlocks, hroom⟩
  cases room with
  | false =>
    -- The lock for the look is given back unless there was one before, which it has not changed then.
    cases hheld : e.locks.holds p txn with
    | true => exact hlocks.trans (h.coherent.grant_shared_of_held hheld)
    | false =>
      show (e₁.locks.release p txn).2 = e.locks
      rw [hlocks]
      exact h.coherent.release_grant hheld
  | true =>
    have h₁ : e₁.Unhindered := h.of_grant hquiet.consistent hlocks
    simp only [if_true, ends_bind]
    refine ((ends_getPage_readWrite h₁.consistent txn p).and (ends_getPage_takes h₁ txn p .readWrite)).mono ?_
      fun _ _ _ => trivial
    rintro handle e₂ ⟨⟨hquiet', -, -, page, hpage, hcopy⟩, hlocks'⟩
    have hexclusive : e₂.locks = e.locks.grant p txn .exclusive := by
      rw [hlocks', hlocks]
      exact h.coherent.grant_exclusive_of_shared
    rw [ends_page hpage]
    cases hinsert : page.insert t with
    | ok result => exact hexclusive
    | error cause =>
      obtain ⟨hwf, -⟩ := hquiet'.consistent.fits _ page hcopy
      obtain ⟨-, rfl⟩ | ⟨-, hnone, rfl⟩ := hwf.insert_eq_error_iff.1 hinsert
      · trivial
      · -- There was room when the page was looked at, and nothing was put on it since.
        have hfull := (full_congr ((hquiet.trans hquiet').content p)).1 (full_of_copy hcopy hnone)
        exact absurd hfull (hroom rfl)

theorem ends_insertInto_takes (h : e.Unhindered) (txn : TxnId) (p : PageId) (t : Tuple) :
    Ends (insertInto txn p t) e
      (fun result e' => ∃ e₁, Placed txn p t result e₁ e' ∧ e₁.locks = e.locks.grant p txn .exclusive)
      fun _ _ => True := by
  unfold insertInto
  rw [ends_bind]
  refine ((ends_getPage_readWrite h.consistent txn p).and (ends_getPage_takes h txn p .readWrite)).mono ?_
    fun _ _ _ => trivial
  rintro handle e₁ ⟨⟨hquiet, howned, hhandle, page, hpage, hcopy⟩, hlocks⟩
  unfold insertOn setPage modifyCache
  simp only [ends_bind, ends_page hpage, ends_liftExcept, ends_modify, ends_pure]
  refine ⟨fun result hinsert => ?_, fun _ _ => trivial⟩
  exact ⟨e₁, ⟨hquiet.consistent, howned, hhandle, page, result.2, hcopy, hinsert, rfl⟩, hlocks⟩

/-- The pages that the search passes are locked as before, the one that takes the tuple exclusively. -/
theorem ends_insertFirstFit_takes {entry : TableEntry} (h : e.Unhindered) (ht : e.catalog.byId[table]? = some entry)
    (txn : TxnId) (t : Tuple) (pages : List Nat) :
    Ends (insertFirstFit entry.file txn t table pages) e
      (fun result e' => ∃ p e₁, Placed txn p t result e₁ e' ∧ e₁.locks = e.locks.grant p txn .exclusive)
      fun _ _ => True := by
  induction pages generalizing e with
  | nil =>
    obtain ⟨f, hf, -⟩ := h.consistent.opened table entry ht
    have happended : (e.appended entry.file f).Unhindered :=
      h.of_same_locks (h.consistent.grows_append ht hf).consistent rfl
    unfold insertFirstFit
    rw [ends_bind, ends_onFiles, FileOp.ends_allocate hf]
    exact (ends_insertInto_takes happended txn f.nextPage t).mono (fun _ _ hplaced => ⟨f.nextPage, hplaced⟩)
      fun _ _ _ => trivial
  | cons n rest ih =>
    rw [insertFirstFit_cons, ends_bind]
    refine ((ends_tryPage h.consistent txn t ⟨table, n⟩).and (ends_tryPage_takes h txn t ⟨table, n⟩)).mono ?_
      fun _ _ _ => trivial
    rintro result e₁ ⟨htry, hlocks⟩
    cases result with
    | some placed =>
      obtain ⟨e₂, -, hplaced⟩ := htry
      obtain ⟨-, -, -, page, page', -, -, rfl⟩ := id hplaced
      exact ⟨⟨table, n⟩, e₂, hplaced, hlocks⟩
    | none =>
      obtain ⟨hquiet, -⟩ : Quiet txn e e₁ ∧ e.Full ⟨table, n⟩ := htry
      have hsame : e₁.locks = e.locks := hlocks
      have hrest := ih (h.of_same_locks hquiet.consistent hsame) (hquiet.catalog ▸ ht)
      rwa [hsame] at hrest

theorem settles_insert_takes (h : e.Unhindered) (txn : TxnId) (table : TableId) (t : Tuple) :
    Settles (insert txn table t) e fun result e' => match result.outcome with
      | .ok _ => ∃ r, result.tuple = t.withRecordId (some r) ∧ e'.locks = e.locks.grant r.page txn .exclusive
      | .error _ => True := by
  unfold insert
  rw [settles_bind, settles_run, ends_bind]
  cases ht : e.catalog.byId[table]? with
  | none =>
    rw [ends_tableFile_of_none ht]
    trivial
  | some entry =>
    obtain ⟨f, hf, htable, -⟩ := h.consistent.opened table entry ht
    unfold insertIntoFile
    rw [ends_tableFile ht, ends_bind, ends_onFiles, FileOp.ends_file hf, htable]
    split
    · refine (ends_insertFirstFit_takes h ht txn t (List.range f.numPages)).mono ?_ fun _ _ _ => trivial
      rintro result e₂ ⟨p, e₁, hplaced, hlocks⟩
      dsimp only
      rw [settles_bind, settles_run]
      apply (ends_markDirty_adopt hplaced).mono_ok
      rintro _ e' ⟨slot, -, hstored, -, hwrites⟩
      exact ⟨HeapPage.recordId p slot, hstored, hwrites.locks.trans hlocks⟩
    · trivial

theorem inserted_of_run (h : e.Unhindered) {t stored : Tuple} {handle : Handle}
    (hrun : (insert txn table t).run e = (⟨stored, .ok handle⟩, e')) :
    ∃ r, stored = t.withRecordId (some r) ∧ Inserted r t.values e e' ∧
      LockTable.Gets txn .exclusive [r.page] e.locks e'.locks := by
  have hspec := (settles_insert h.consistent txn table t).and (settles_insert_takes h txn table t)
  unfold Settles at hspec
  rw [hrun] at hspec
  obtain ⟨⟨p, slot, e₁, hslot, hstored, hchosen, -, hwrites⟩, r, hr, hlocks⟩ := hspec
  obtain rfl : HeapPage.recordId p slot = r := Option.some.inj (congrArg Tuple.recordId (hstored.symm.trans hr))
  refine ⟨HeapPage.recordId p slot, hr, ?_, ?_⟩
  · exact Call.inserted_of_writes rfl (HeapPage.toNat_recordId hslot p) hchosen.prepared hwrites
  · rw [show e'.locks = _ from hlocks]
    exact h.coherent.gets_exclusive _ txn

end Op

/-! ### Scanning -/

namespace Scan

variable {pos : Position} {pages : Nat}

/-! The pages that a search comes by -/

theorem of_mem_asked (hq : q ∈ asked table txn pages pos e) : q.table = table ∧ pos.page ≤ q.number := by
  induction pages generalizing pos e with
  | zero => exact absurd hq List.not_mem_nil
  | succ pages ih =>
    rw [asked, List.mem_cons] at hq
    obtain rfl | hrest := hq
    · exact ⟨rfl, Nat.le_refl _⟩
    · split at hrest
      · obtain ⟨htable, hle⟩ := ih hrest
        exact ⟨htable, Nat.le_of_succ_le hle⟩
      · exact absurd hrest List.not_mem_nil

theorem not_mem_asked_after : (⟨table, pos.page⟩ : PageId) ∉ asked table txn pages ⟨pos.page + 1, 0⟩ e := fun h =>
  Nat.not_succ_le_self pos.page (of_mem_asked h).2

theorem nodup_asked : (asked table txn pages pos e).Nodup := by
  induction pages generalizing pos e with
  | zero => exact List.nodup_nil
  | succ pages ih =>
    rw [asked, List.nodup_cons]
    split
    · exact ⟨not_mem_asked_after, ih⟩
    · exact ⟨List.not_mem_nil, List.nodup_nil⟩

theorem settles_look_takes (h : e.Unhindered) (ht : e.Tidy) (table : TableId) (txn : TxnId) (pos : Position) :
    Settles (look table txn pos) e fun answer e' => match answer with
      | some (.error _, _) => True
      | some (.ok _, pos') => pos'.page = pos.page ∧ e'.locks = e.locksPast txn [⟨table, pos.page⟩]
      | none => e'.locks = e.locksPast txn [⟨table, pos.page⟩] := by
  unfold look
  simp only [settles_bind, settles_get, settles_run, ends_bind]
  refine (((Op.ends_getPage h.consistent txn ⟨table, pos.page⟩ .readOnly).and
    (Op.ends_getPage_takes h txn ⟨table, pos.page⟩ .readOnly)).and
    (Op.ends_getPage_acts h.consistent txn ⟨table, pos.page⟩ .readOnly)).mono ?_ fun _ _ _ => trivial
  rintro handle e₁ ⟨⟨⟨hquiet, hhandle, -⟩, hlocks⟩, hacts⟩
  obtain ⟨page, hpage, hcopy, -⟩ := hquiet.consistent.sound.exists_copy hhandle
  obtain ⟨hwf, -⟩ := hquiet.consistent.fits _ page hcopy
  have hempty : page.isEmpty = true ↔ ∀ slot, page.tuple? slot = none :=
    ((hacts.tidy h.consistent ht).copies _ page hcopy).isEmpty_iff hwf
  have hstores : e.storesTuple ⟨table, pos.page⟩ = true ↔ ∃ slot, (page.tuple? slot).isSome = true := by
    rw [← storesTuple_congr (hquiet.content _)]
    exact storesTuple_of_copy hcopy
  have hkept : e.storesTuple ⟨table, pos.page⟩ = true → e₁.locks = e.locksPast txn [⟨table, pos.page⟩] :=
    fun hsome => hlocks.trans (h.locksPast_of_stores hsome).symm
  rw [Op.ends_page hpage]
  cases hfound : (page.nextUsed? pos.slot).bind fun slot => (page.tuple? slot).map (slot, ·) with
  | some found =>
    obtain ⟨slot, -, hslot⟩ := Option.bind_eq_some_iff.1 hfound
    obtain ⟨tuple, htuple, -⟩ := Option.map_eq_some_iff.1 hslot
    exact ⟨rfl, hkept (hstores.2 ⟨slot, by rw [htuple, Option.isSome_some]⟩)⟩
  | none =>
    cases hclear : page.isEmpty with
    | false =>
      refine hkept (hstores.2 ?_)
      by_contra hnone
      simp only [not_exists, Bool.not_eq_true, Option.isSome_eq_false_iff, Option.isNone_iff_eq_none] at hnone
      rw [hempty.2 hnone] at hclear
      simp at hclear
    | true =>
      have hnone : e.storesTuple ⟨table, pos.page⟩ = false := by
        rw [Bool.eq_false_iff, ne_eq, hstores]
        rintro ⟨slot, hslot⟩
        rw [hempty.1 hclear slot] at hslot
        simp at hslot
      cases hheld : e.locks.holds ⟨table, pos.page⟩ txn with
      | true =>
        refine Eq.trans ?_ (locksPast_of_not_stores hnone).symm
        exact hlocks.trans (h.coherent.grant_shared_of_held hheld)
      | false =>
        refine Eq.trans ?_ (locksPast_of_not_stores hnone).symm
        show (e₁.locks.release _ txn).2 = e.locks
        rw [hlocks]
        exact h.coherent.release_grant hheld

/-- A search that is not refused leaves what a scan leaves that comes by the pages from its start to its end. -/
theorem settles_search_takes (h : e.Unhindered) (ht : e.Tidy) (table : TableId) (txn : TxnId) (pages : Nat)
    (pos : Position) :
    Settles (search table txn pages pos) e fun answer e' => ∀ found, answer.1 = .ok found →
      e'.locks = e.locksPast txn (asked table txn pages pos e) ∧ pos.page ≤ answer.2.page ∧
        ∀ q, q ∈ asked table txn pages pos e ↔
          q.table = table ∧ pos.page ≤ q.number ∧ q.number ≤ answer.2.page ∧ q.number < pos.page + pages := by
  induction pages generalizing e pos with
  | zero =>
    intro found _
    refine ⟨rfl, Nat.le_refl _, fun q => ?_⟩
    simp only [asked, List.not_mem_nil, false_iff]
    omega
  | succ pages ih =>
    have hlook := ((settles_look h.consistent table txn pos).and (settles_look_takes h ht table txn pos)).and
      (settles_look_acts h.consistent table txn pos)
    rw [search_succ, settles_bind]
    unfold Settles at hlook ⊢
    rw [asked]
    cases hrun : (look table txn pos).run e with | mk answer e₁ =>
    rw [hrun] at hlook
    obtain ⟨⟨hquiet, hlocks⟩, hacts⟩ := hlook
    cases answer with
    | some answer =>
      obtain ⟨outcome, pos'⟩ := answer
      intro found hok
      obtain rfl : outcome = .ok found := hok
      obtain ⟨hpage, hpast⟩ : pos'.page = pos.page ∧ e₁.locks = e.locksPast txn [⟨table, pos.page⟩] := hlocks
      refine ⟨hpast, hpage.ge, ?_⟩
      rintro ⟨t, n⟩
      show _ ↔ t = table ∧ pos.page ≤ n ∧ n ≤ pos'.page ∧ n < pos.page + (pages + 1)
      rw [List.mem_singleton, PageId.mk.injEq]
      exact and_congr_right fun _ => by omega
    | none =>
      have hpast : e₁.locks = e.locksPast txn [⟨table, pos.page⟩] := hlocks
      have hrest := ih (h.of_locksPast hquiet.consistent hpast) (hacts.tidy h.consistent ht) ⟨pos.page + 1, 0⟩
      intro found hok
      obtain ⟨hlater, hle, hmem⟩ := hrest found hok
      refine ⟨hlater.trans (locksPast_cons hquiet.content hpast not_mem_asked_after).symm, Nat.le_of_succ_le hle, ?_⟩
      rintro ⟨t, n⟩
      rw [List.mem_cons, hmem, PageId.mk.injEq, ← and_or_left]
      exact and_congr_right fun _ => by dsimp only at hle ⊢; omega

/-- The locks and the pages after a scan went on to a new position. -/
structure Passes (s s' : Scan) (e e' : Engine) : Prop where
  locks : e'.locks = e.locksPast s.txn (s.asks e)
  asks : ∀ q, q ∈ s.asks e ↔ s.isOpen = true ∧ ∃ f, e.store.file? s.file = some f ∧ q.table = f.table ∧
    s.position.page ≤ q.number ∧ q.number ≤ s'.position.page ∧ q.number < f.numPages

theorem nodup_asks (s : Scan) (e : Engine) : (s.asks e).Nodup := by
  unfold asks
  split
  · exact nodup_asked
  · exact List.nodup_nil

theorem Passes.gets {s s' : Scan} (hpasses : s.Passes s' e e') (h : e.locks.Coherent) :
    LockTable.Gets s.txn .shared ((s.asks e).filter (e.takes s.txn)) e.locks e'.locks := by
  rw [hpasses.locks]
  refine h.gets_each ((nodup_asks s e).filter _) fun q hq => ?_
  have htakes := (List.mem_filter.1 hq).2
  rw [takes, Bool.and_eq_true, Bool.not_eq_true', LockTable.holds, Option.isSome_eq_false_iff,
    Option.isNone_iff_eq_none] at htakes
  exact htakes.1

theorem passes_of_closed {s : Scan} (hclosed : s.isOpen = false) : s.Passes s e e := by
  have hnone : s.asks e = [] := by rw [asks, hclosed]
  refine ⟨by rw [hnone]; rfl, fun q => ?_⟩
  rw [hnone, hclosed]
  simp

theorem settles_seek_takes (h : e.Unhindered) (ht : e.Tidy) {s : Scan} (hopen : s.isOpen = true) :
    Settles s.seek e fun answer e' => ∀ found, answer.1 = .ok found → s.Passes answer.2 e e' := by
  unfold seek
  rw [settles_bind, settles_get]
  cases hf : e.store.file? s.file with
  | none => exact fun found hok => nomatch hok
  | some f =>
    have hasks : s.asks e = asked f.table s.txn (f.numPages - s.position.page) s.position e := by rw [asks, hopen, hf]
    rw [settles_bind]
    apply (settles_search_takes h ht f.table s.txn (f.numPages - s.position.page) s.position).mono
    rintro ⟨result, pos'⟩ e' hsearch found hok
    obtain ⟨hlocks, -, hmem⟩ := hsearch found hok
    show s.Passes { s with position := pos' } e e'
    refine ⟨hasks ▸ hlocks, fun q => ?_⟩
    rw [hasks, hmem]
    constructor
    · rintro ⟨htable, hfrom, hto, hlt⟩
      exact ⟨hopen, f, hf, htable, hfrom, hto, by omega⟩
    · rintro ⟨-, g, hg, htable, hfrom, hto, hlt⟩
      obtain rfl := Option.some.inj (hf.symm.trans hg)
      exact ⟨htable, hfrom, hto, by omega⟩

theorem settles_hasNext_takes (h : e.Unhindered) (ht : e.Tidy) (s : Scan) :
    Settles s.hasNext e fun answer e' => ∀ more, answer.1 = .ok more → s.Passes answer.2 e e' := by
  unfold hasNext
  cases hopen : s.isOpen with
  | false => exact fun _ _ => passes_of_closed hopen
  | true =>
    simp only [Bool.not_true, Bool.false_eq_true, if_false, settles_bind]
    apply (settles_seek_takes h ht hopen).mono
    rintro ⟨result, s'⟩ e' hseek more hmore
    cases result with
    | error cause => cases hmore
    | ok found => exact hseek found rfl

/-- Going past the tuple that was found does not leave its page. -/
theorem settles_next_takes (h : e.Unhindered) (ht : e.Tidy) (s : Scan) :
    Settles s.next e fun answer e' => ∀ tuple, answer.1 = .ok tuple → s.Passes answer.2 e e' := by
  unfold next
  cases hopen : s.isOpen with
  | false => exact fun _ hok => nomatch hok
  | true =>
    simp only [Bool.not_true, Bool.false_eq_true, if_false, settles_bind]
    apply (settles_seek_takes h ht hopen).mono
    rintro ⟨result, s'⟩ e' hseek tuple htuple
    cases result with
    | error cause => cases htuple
    | ok found =>
      have hpasses := hseek found rfl
      cases found with
      | none => cases htuple
      | some next => exact ⟨hpasses.locks, hpasses.asks⟩

end Scan

/-- **Inserts and scans leave exactly the locks that they are meant to leave.** While tables are built from empty files
and no request waits, an insert that succeeds changes the lock table by one mode, that of its transaction on the page of
the tuple, which is exclusive then; the full pages on the way are locked as before. A scan that goes on has come by the
pages from its old to its new position, and gets shared locks on those of them that hold tuples and that it held no lock
on; all other pages, the ones without tuples and those that were locked before among them, are locked as before. -/
theorem Engine.Grown.lock_footprint (h : Grown e) (hnobody : e.locks.Unawaited) :
    (∀ txn table t stored handle e', (Op.insert txn table t).run e = (⟨stored, .ok handle⟩, e') →
      ∃ r, stored = t.withRecordId (some r) ∧ Inserted r t.values e e' ∧
        LockTable.Gets txn .exclusive [r.page] e.locks e'.locks) ∧
    (∀ (s : Scan) more s' e', s.hasNext.run e = ((.ok more, s'), e') → s.Passes s' e e' ∧
      LockTable.Gets s.txn .shared ((s.asks e).filter (e.takes s.txn)) e.locks e'.locks) ∧
    ∀ (s : Scan) tuple s' e', s.next.run e = ((.ok tuple, s'), e') → s.Passes s' e e' ∧
      LockTable.Gets s.txn .shared ((s.asks e).filter (e.takes s.txn)) e.locks e'.locks := by
  have hwork : Worked e := Grown.worked h
  have hfree : e.Unhindered := ⟨hwork.consistent, hwork.coherent, hnobody⟩
  refine ⟨fun txn table t stored handle e' hrun => Op.inserted_of_run hfree hrun, ?_, ?_⟩
  · intro s more s' e' hrun
    have hends := Scan.settles_hasNext_takes hfree h.tidy s
    unfold Settles at hends
    rw [hrun] at hends
    have hpasses : s.Passes s' e e' := hends more rfl
    exact ⟨hpasses, hpasses.gets hwork.coherent⟩
  · intro s tuple s' e' hrun
    have hends := Scan.settles_next_takes hfree h.tidy s
    unfold Settles at hends
    rw [hrun] at hends
    have hpasses : s.Passes s' e e' := hends tuple rfl
    exact ⟨hpasses, hpasses.gets hwork.coherent⟩

namespace Sample

/-- Three pages, of which the second one has lost its tuple; nobody holds a lock. -/
def gappedWords : Engine :=
  [insertApple, insertPear, insertApple, .delete 1 (some ⟨⟨0, 1⟩, 0⟩) false, .commit 1].foldl (fun e c => c.after e)
    ((Op.addTable "words" "words" schema).run.run (.start .blank { poolPages := 3 })).2

theorem grown_gappedWords : Grown gappedWords :=
  Grown.calls (.event (.register "words" "words" schema) (.start .blank { poolPages := 3 })
    ⟨newPath_start _ _ _, fun _ _ => rfl⟩) _

/-- A scan that has given the tuple of the first page. -/
def pastApple : Scan := ⟨0, 2, ⟨0, 1⟩, true⟩

set_option maxRecDepth 50000 in
theorem gappedWords_eq :
    gappedWords.locks.pages.isEmpty = true ∧
    (((Op.insert 2 0 pear).run gappedWords).1.outcome = .ok ⟨⟨0, 1⟩, 1⟩ ∧
      ((Op.insert 2 0 pear).run gappedWords).1.tuple.recordId = some ⟨⟨0, 1⟩, 0⟩) ∧
    (pastApple.hasNext.run gappedWords).1 = (.ok true, ⟨0, 2, ⟨2, 0⟩, true⟩) ∧
    pastApple.asks gappedWords = [⟨0, 0⟩, ⟨0, 1⟩, ⟨0, 2⟩] ∧
    (pastApple.asks gappedWords).filter (gappedWords.takes pastApple.txn) = [⟨0, 0⟩, ⟨0, 2⟩] := by
  decide +kernel

end Sample

/-- An insert passes the full first page and takes the second one. A scan passes the second one, which is without
tuples, and keeps shared locks on the first and the third one. -/
theorem lock_footprint_of_gap :
    LockTable.Gets 2 .exclusive [⟨0, 1⟩] Sample.gappedWords.locks
      ((Op.insert 2 0 Sample.pear).run Sample.gappedWords).2.locks ∧
    Sample.pastApple.asks Sample.gappedWords = [⟨0, 0⟩, ⟨0, 1⟩, ⟨0, 2⟩] ∧
    LockTable.Gets 2 .shared [⟨0, 0⟩, ⟨0, 2⟩] Sample.gappedWords.locks
      (Sample.pastApple.hasNext.run Sample.gappedWords).2.locks := by
  obtain ⟨hnobody, hstored, hfound, hasked, hpages⟩ := Sample.gappedWords_eq
  obtain ⟨hinserts, hscans, -⟩ :=
    Sample.grown_gappedWords.lock_footprint (LockTable.unawaited_of_isEmpty hnobody)
  refine ⟨?_, hasked, ?_⟩
  · cases hrun : (Op.insert 2 0 Sample.pear).run Sample.gappedWords with | mk result e' =>
    obtain ⟨stored, outcome⟩ := result
    rw [hrun] at hstored
    obtain ⟨rfl, hrecord⟩ := hstored
    obtain ⟨r, rfl, -, hgets⟩ := hinserts _ _ _ _ _ _ hrun
    obtain rfl : r = ⟨⟨0, 1⟩, 0⟩ := Option.some.inj hrecord
    exact hgets
  · cases hrun : Sample.pastApple.hasNext.run Sample.gappedWords with | mk answer e' =>
    rw [hrun] at hfound
    obtain rfl : answer = _ := hfound
    obtain ⟨-, hgets⟩ := hscans _ _ _ _ hrun
    rw [hpages] at hgets
    exact hgets

end HeapStore
