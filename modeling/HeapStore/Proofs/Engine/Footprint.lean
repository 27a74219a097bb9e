import HeapStore.Proofs.Engine.Calls

/-!
# Pages whose locks a call asks for

Which pages a call asks for depends on what it finds on its way, so `Call.asks` follows the call from page
to page. It names all of them: the other pages keep their locks as they are, with the requests that wait
for them, unless the call gives locks up (`Call.locks_of_not_asked`).
-/

namespace HeapStore

open Engine

variable {e e' : Engine} {txn : TxnId} {p q : PageId}

/-! ### Pages that a call asks for -/

/-- The pages that a first-fit search asks for. -/
def Op.asked (fd : Descriptor) (txn : TxnId) (t : Tuple) (table : TableId) : List Nat → Engine → List PageId
  | [], e =>
    match (Op.onFiles (FileOp.allocate fd)).run.run e with
    | (.ok p, _) => [p]
    | (.error _, _) => []
  | n :: rest, e =>
    ⟨table, n⟩ ::
      match (Op.tryPage txn t ⟨table, n⟩).run.run e with
      | (.ok none, e') => asked fd txn t table rest e'
      | _ => []

/-- The pages that a scan's search asks for. -/
def Scan.asked (table : TableId) (txn : TxnId) : (pages : Nat) → Position → Engine → List PageId
  | 0, _, _ => []
  | pages + 1, pos, e =>
    ⟨table, pos.page⟩ ::
      match (Scan.look table txn pos).run e with
      | (none, e') => asked table txn pages ⟨pos.page + 1, 0⟩ e'
      | (some _, _) => []

def Scan.asks (s : Scan) (e : Engine) : List PageId :=
  match s.isOpen, e.store.file? s.file with
  | true, some f => asked f.table s.txn (f.numPages - s.position.page) s.position e
  | _, _ => []

/-- The pages whose locks a call asks for. -/
def Call.asks : Call → Engine → List PageId
  | getPage _ p _ _, _ => [p]
  | insert txn table t _, e =>
    match e.catalog.byId[table]? with
    | none => []
    | some entry =>
      match e.store.file? entry.file with
      | none => []
      | some f =>
        if t.schema.sameTypes f.schema then
          Op.asked entry.file txn t f.table (List.range f.numPages) e
        else []
  | delete _ (some r) _, e => if e.cache.isCached r.page then [r.page] else []
  | hasNext s, e | next s, e => s.asks e
  | _, _ => []

/-! ### Pages that are not asked for -/

/-- The locks of the page are what they were. -/
def SameLocks (q : PageId) (e e' : Engine) : Prop := e'.locks.locks q = e.locks.locks q

theorem SameLocks.refl (q : PageId) (e : Engine) : SameLocks q e e := rfl

theorem SameLocks.trans {e₁ : Engine} (h : SameLocks q e e₁) (h' : SameLocks q e₁ e') : SameLocks q e e' :=
  Eq.trans h' h

theorem SameLocks.of_eq (h : e'.locks = e.locks) : SameLocks q e e' := congrArg (LockTable.locks · q) h

theorem SameLocks.release (h : SameLocks q e e') (hq : q ≠ p) :
    SameLocks q e { e' with locks := (e'.locks.release p txn).2 } := by
  unfold SameLocks at *
  rw [LockTable.locks_release, if_neg hq, h]

namespace Op

theorem ends_of_run {α : Type} {op : Op α} {a : α} (h : op.run.run e = (.ok a, e'))
    {ok : α → Engine → Prop} {err : StorageError → Engine → Prop} : Ends op e ok err ↔ ok a e' := by
  unfold Ends
  rw [h]

/-- An append to a table's file always succeeds, and has nothing to do with locks. -/
theorem exists_run_allocate {table : TableId} {entry : TableEntry} (he : e.Consistent)
    (ht : e.catalog.byId[table]? = some entry) :
    ∃ new e₁, (onFiles (FileOp.allocate entry.file)).run.run e = (.ok new, e₁) ∧ e₁.Consistent ∧
      e₁.locks = e.locks := by
  obtain ⟨f, hf, -⟩ := he.opened table entry ht
  have hrun := (FileOp.ends_allocate hf).1 (ends_onFiles.1 (Ends.self (onFiles (FileOp.allocate entry.file)) e))
  exact ⟨f.nextPage, _, hrun, (he.grows_append ht hf).consistent, rfl⟩

theorem sameLocks_lock (txn : TxnId) (hq : q ≠ p) (mode : LockMode) :
    SameLocks q e { e with locks := (e.locks.acquireAlone p txn mode).2 } :=
  LockTable.locks_acquireAlone_of_ne hq

theorem ends_getPage_locks (he : e.Consistent) (hq : q ≠ p) (access : Access) :
    Ends (getPage txn p access) e (fun _ e' => SameLocks q e e') fun _ e' => SameLocks q e e' := by
  have hlock := sameLocks_lock (e := e) txn hq access.lockMode
  have hkeeps := he.keeps_locks (e.locks.acquireAlone p txn access.lockMode).2
  unfold getPage holdsLock lock
  simp only [ends_bind, ends_get, ends_pure, ends_modify, ends_tryCatch]
  split
  · apply (ends_fetch hkeeps.consistent p).mono
    · intro _ e' h
      exact hlock.trans (.of_eq h.2.1)
    · intro _ e' h
      have hsame : SameLocks q e e' := hlock.trans (.of_eq h.2)
      split
      · exact hsame
      · exact hsame.release hq
  · exact hlock

/-- The page object that a call for a page gives can be read. -/
theorem ends_getPage_readable (he : e.Consistent) (hq : q ≠ p) (access : Access) :
    Ends (getPage txn p access) e
      (fun h e' => SameLocks q e e' ∧ e'.cache.Sound ∧ e'.cache.handle? p = some h ∧
        ∃ page, e'.cache.page? h = some page)
      fun _ e' => SameLocks q e e' := by
  apply ((ends_getPage he txn p access).and (ends_getPage_locks he hq access)).mono
  · rintro h e' ⟨⟨hquiet, hhandle, -⟩, hsame⟩
    have hsound := hquiet.consistent.sound
    obtain ⟨page, hpage, -⟩ := hsound.exists_copy hhandle
    exact ⟨hsame, hsound, hhandle, page, hpage⟩
  · intro _ _ h
    exact h.2

theorem ends_probe_locks (he : e.Consistent) (hq : q ≠ p) :
    Ends (probe txn p) e (fun _ e' => SameLocks q e e') fun _ e' => SameLocks q e e' := by
  unfold probe
  rw [ends_bind]
  refine (ends_getPage_readable he hq .readOnly).mono ?_ fun _ _ hsame => hsame
  rintro h e₁ ⟨hsame, -, -, page, hpage⟩
  rw [ends_bind, ends_page hpage, ends_pure]
  exact hsame

theorem ends_insertInto_locks (he : e.Consistent) (hq : q ≠ p) (t : Tuple) :
    Ends (insertInto txn p t) e (fun _ e' => SameLocks q e e') fun _ e' => SameLocks q e e' := by
  unfold insertInto
  rw [ends_bind]
  refine (ends_getPage_readable he hq .readWrite).mono ?_ fun _ _ hsame => hsame
  rintro h e₁ ⟨hsame, -, -, page, hpage⟩
  unfold insertOn setPage modifyCache
  simp only [ends_bind, ends_page hpage, ends_liftExcept, ends_modify, ends_pure]
  exact ⟨fun _ _ => hsame, fun _ _ => hsame⟩

theorem ends_tryPage_locks (he : e.Consistent) (hq : q ≠ p) (t : Tuple) :
    Ends (tryPage txn t p) e (fun _ e' => SameLocks q e e') fun _ e' => SameLocks q e e' := by
  unfold tryPage holdsLock
  simp only [ends_bind, ends_get, ends_pure]
  refine ((ends_probe he txn p).and (ends_probe_locks he hq)).mono ?_ fun _ _ h => h.2
  rintro room e₁ ⟨⟨hprobe, -⟩, hsame⟩
  cases room with
  | false =>
    cases e.locks.holds p txn with
    | true => exact hsame
    | false => exact hsame.release hq
  | true =>
    simp only [if_true, ends_bind]
    refine (ends_getPage_readable hprobe.consistent hq .readWrite).mono ?_ fun _ _ h => hsame.trans h
    rintro h e₂ ⟨hsame', -, -, page, hpage⟩
    rw [ends_page hpage]
    cases page.insert t with
    | ok result => exact hsame.trans hsame'
    | error cause => cases cause <;> exact hsame.trans hsame'

theorem ends_insertFirstFit_locks {table : TableId} {entry : TableEntry} (he : e.Consistent)
    (ht : e.catalog.byId[table]? = some entry) {t : Tuple} {pages : List Nat}
    (hq : q ∉ asked entry.file txn t table pages e) :
    Ends (insertFirstFit entry.file txn t table pages) e (fun _ e' => SameLocks q e e')
      fun _ e' => SameLocks q e e' := by
  induction pages generalizing e with
  | nil =>
    obtain ⟨new, e₁, hrun, he₁, hlocks⟩ := exists_run_allocate he ht
    rw [asked, hrun, List.mem_singleton] at hq
    unfold insertFirstFit
    rw [ends_bind, ends_of_run hrun]
    have hsame : SameLocks q e e₁ := .of_eq hlocks
    exact (ends_insertInto_locks he₁ hq t).mono (fun _ _ h => hsame.trans h) fun _ _ h => hsame.trans h
  | cons n rest ih =>
    rw [asked, List.mem_cons, not_or] at hq
    rw [insertFirstFit_cons, ends_bind]
    refine (((ends_tryPage he txn t ⟨table, n⟩).and (ends_tryPage_locks he hq.1 t)).and
      (Ends.self _ _)).mono ?_ fun _ _ h => h.1.2
    rintro result e₁ ⟨⟨htry, hsame⟩, hrun⟩
    cases result with
    | some placed => exact hsame
    | none =>
      obtain ⟨hquiet, -⟩ : Quiet txn e e₁ ∧ e.Full ⟨table, n⟩ := htry
      have hrest : q ∉ asked entry.file txn t table rest e₁ := by
        have hlater := hq.2
        rw [hrun] at hlater
        exact hlater
      exact (ih hquiet.consistent (hquiet.catalog ▸ ht) hrest).mono (fun _ _ h => hsame.trans h)
        fun _ _ h => hsame.trans h

theorem settles_insert_locks (he : e.Consistent) {table : TableId} {t : Tuple} {keep : Bool}
    (hq : q ∉ (Call.insert txn table t keep).asks e) :
    Settles (insert txn table t) e fun _ e' => SameLocks q e e' := by
  unfold insert
  rw [settles_bind, settles_run, ends_bind]
  rw [Call.asks] at hq
  cases ht : e.catalog.byId[table]? with
  | none =>
    rw [ends_tableFile_of_none ht]
    exact .refl q e
  | some entry =>
    obtain ⟨f, hf, htable, -⟩ := he.opened table entry ht
    simp only [ht, hf, htable] at hq
    unfold insertIntoFile
    rw [ends_tableFile ht, ends_bind, ends_onFiles, FileOp.ends_file hf, htable]
    split
    · next hsame =>
      simp only [hsame, if_true] at hq
      refine ((ends_insertFirstFit he ht txn t (List.range f.numPages)).and
        (ends_insertFirstFit_locks he ht hq)).mono ?_ fun _ _ h => h.2
      rintro result e₂ ⟨⟨p, e₁, -, hplaced⟩, hlocks⟩
      dsimp only
      rw [settles_bind, settles_run]
      -- Marking and adopting the page takes no lock.
      obtain ⟨-, -, -, page, page', -, -, rfl⟩ := id hplaced
      apply (ends_markDirty_adopt hplaced).mono_ok
      intro _ e' h
      obtain ⟨slot, -, -, -, hwrites⟩ := h
      exact hlocks.trans (.of_eq hwrites.locks)
    · exact .refl q e

theorem ends_delete_locks (he : e.Consistent) {r : Option RecordId} {keep : Bool}
    (hq : q ∉ (Call.delete txn r keep).asks e) :
    Ends (delete txn r) e (fun _ e' => SameLocks q e e') fun _ e' => SameLocks q e e' := by
  unfold delete
  cases r with
  | none => exact .refl q e
  | some rid =>
    rw [Call.asks] at hq
    dsimp only
    rw [ends_bind, ends_get]
    split
    · next hcached =>
      rw [if_pos hcached, List.mem_singleton] at hq
      rw [ends_bind]
      cases ht : e.catalog.byId[rid.page.table]? with
      | none =>
        rw [ends_tableFile_of_none ht]
        exact .refl q e
      | some entry =>
        obtain ⟨f, hf, htable, -⟩ := he.opened _ entry ht
        unfold deleteFromFile
        rw [ends_tableFile ht]
        simp only [ends_bind, ends_onFiles, FileOp.ends_file hf, htable, if_true]
        refine (ends_getPage_readable he hq .readWrite).mono ?_ fun _ _ hsame => hsame
        rintro h e₁ ⟨hsame, hsound, hhandle, page, hpage⟩
        rw [ends_page hpage, ends_liftExcept]
        refine ⟨fun page' _ => ?_, fun _ _ => hsame⟩
        have hpage' : ({ e₁ with cache := e₁.cache.setPage h page' } : Engine).cache.page? h = some page' :=
          hsound.page?_setPage hhandle page'
        unfold markDirty setPage modifyCache
        simp only [ends_bind, ends_modify, ends_pure, ends_page hpage']
        exact hsame
    · exact .refl q e

end Op

namespace Scan

variable {table : TableId}

theorem settles_look_locks (he : e.Consistent) (txn : TxnId) {pos : Position} (hq : q ≠ ⟨table, pos.page⟩) :
    Settles (look table txn pos) e fun _ e' => SameLocks q e e' := by
  unfold look
  simp only [settles_bind, settles_get, settles_run, ends_bind]
  refine (Op.ends_getPage_readable he hq .readOnly).mono ?_ fun _ _ hsame => hsame
  rintro h e₁ ⟨hsame, -, -, page, hpage⟩
  rw [Op.ends_page hpage]
  cases (page.nextUsed? pos.slot).bind fun slot => (page.tuple? slot).map (slot, ·) with
  | some found => exact hsame
  | none =>
    cases page.isEmpty && !e.locks.holds ⟨table, pos.page⟩ txn with
    | true => exact hsame.release hq
    | false => exact hsame

theorem settles_search_locks (he : e.Consistent) {pages : Nat} {pos : Position}
    (hq : q ∉ asked table txn pages pos e) :
    Settles (search table txn pages pos) e fun _ e' => SameLocks q e e' := by
  induction pages generalizing e pos with
  | zero => exact .refl q e
  | succ pages ih =>
    rw [asked, List.mem_cons, not_or] at hq
    have hquiet := settles_look he table txn pos
    have hsame := settles_look_locks he txn hq.1
    have hlater := hq.2
    rw [search_succ, settles_bind]
    unfold Settles at hquiet hsame ⊢
    split at hlater
    · next e₁ hrun =>
      rw [hrun] at hquiet hsame ⊢
      exact hsame.trans (ih hquiet.consistent hlater)
    · next answer e₁ hrun =>
      rw [hrun] at hsame ⊢
      exact hsame

theorem settles_seek_locks (he : e.Consistent) {s : Scan} (hopen : s.isOpen = true) (hq : q ∉ s.asks e) :
    Settles s.seek e fun _ e' => SameLocks q e e' := by
  unfold seek
  rw [settles_bind, settles_get]
  cases hf : e.store.file? s.file with
  | none => exact .refl q e
  | some f =>
    rw [asks, hopen, hf] at hq
    exact settles_search_locks he hq

theorem settles_hasNext_locks (he : e.Consistent) {s : Scan} (hq : q ∉ s.asks e) :
    Settles s.hasNext e fun _ e' => SameLocks q e e' := by
  unfold hasNext
  cases hopen : s.isOpen with
  | false => exact .refl q e
  | true => exact settles_seek_locks he hopen hq

theorem settles_next_locks (he : e.Consistent) {s : Scan} (hq : q ∉ s.asks e) :
    Settles s.next e fun _ e' => SameLocks q e e' := by
  unfold next
  cases hopen : s.isOpen with
  | false => exact .refl q e
  | true =>
    simp only [Bool.not_true, Bool.false_eq_true, if_false, settles_bind]
    apply (settles_seek_locks he hopen hq).mono
    rintro ⟨outcome, s'⟩ e₁ hsame
    cases outcome with
    | error cause => exact hsame
    | ok found => cases found <;> exact hsame

end Scan

/-- Holding an object or not, a caller takes no lock. -/
theorem SameLocks.hold {e₁ : Engine} (h : SameLocks q e e₁) (keep : Bool) (outcome : Except StorageError Handle) :
    Settles (Call.hold keep outcome) e₁ fun _ e' => SameLocks q e e' := by
  unfold Call.hold
  split
  · exact h
  · exact h

/-- A call that does not give locks up leaves the locks of all pages alone that it does not ask for. -/
theorem Call.locks_of_not_asked (he : e.Consistent) {c : Call} (hc : c.givesUp = false) (hq : q ∉ c.asks e) :
    (c.after e).locks.locks q = e.locks.locks q := by
  suffices h : Settles c.run e fun _ e' => SameLocks q e e' from h
  cases c with
  | getPage txn p access keep =>
    have hne : q ≠ p := fun heq => hq (heq ▸ List.mem_singleton_self p)
    unfold run
    rw [settles_bind, HeapStore.settles_run]
    exact (Op.ends_getPage_locks he hne access).mono (fun h _ hsame => hsame.hold keep (.ok h))
      fun cause _ hsame => hsame.hold keep (.error cause)
  | insert txn table t keep =>
    unfold run
    rw [settles_bind]
    exact (Op.settles_insert_locks he hq).mono fun result _ hsame => hsame.hold keep result.2
  | delete txn r keep =>
    unfold run
    rw [settles_bind, HeapStore.settles_run]
    exact (Op.ends_delete_locks he hq).mono (fun h _ hsame => hsame.hold keep (.ok h))
      fun cause _ hsame => hsame.hold keep (.error cause)
  | flushPage p =>
    unfold run
    rw [settles_bind, HeapStore.settles_run]
    exact (Op.ends_flushPage he p).mono_ok fun _ e' h => .of_eq h.2
  | flushTxn txn =>
    unfold run
    rw [settles_bind, HeapStore.settles_run]
    exact (Op.ends_flushTxn he txn).mono_ok fun _ e' h => .of_eq h.2.1
  | flushAll =>
    unfold run
    rw [settles_bind, HeapStore.settles_run]
    exact (Op.ends_flushAll he).mono_ok fun _ e' h => .of_eq h.2
  | hasNext s =>
    unfold run
    rw [settles_bind]
    exact Scan.settles_hasNext_locks he hq
  | next s =>
    unfold run
    rw [settles_bind]
    exact Scan.settles_next_locks he hq
  | drop h =>
    unfold run
    rw [settles_bind, settles_get]
    split
    · exact .of_eq rfl
    · exact .refl q e
  | _ => simp [givesUp] at hc

end HeapStore
