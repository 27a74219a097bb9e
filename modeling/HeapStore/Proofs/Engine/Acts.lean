import HeapStore.Proofs.Cache.Eviction
import HeapStore.Proofs.Engine.Calls
import HeapStore.Proofs.Engine.Moves
import HeapStore.Proofs.Lock.Unawaited

/-!
# What calls do, act by act

Whatever a call does, succeed or fail, it does by acts of a few kinds (`Engine.Act`): the files and the cache move below
it, locks are taken and given up, objects are held and let go, a cached page is changed and marked, and a file gets one
page more. `Call.acts` says that the state after a call comes from the state before it by such acts. So what each act
keeps is kept by all calls.
-/

namespace HeapStore

theorem HeapPage.change_of_insert {p p' : HeapPage} {t stored : Tuple} (h : p.insert t = .ok (stored, p')) :
    p.change (.insert t) = p' := by
  rw [change, h]

theorem HeapPage.change_of_delete {p p' : HeapPage} {r : Option RecordId} (h : p.delete r = .ok p') :
    p.change (.delete r) = p' := by
  rw [change, h]

namespace Engine

/-- One thing that happens to an engine in the course of a call. -/
inductive Act (e : Engine) : Engine → Prop
  /-- The files and the cache move, and no page is changed. -/
  | moved {e' : Engine} (h : Move e e') : Act e e'
  /-- Locks are asked for, taken or given up. -/
  | locked {locks : LockTable} {nextTxn : TxnId} (h : e.locks.Coherent → locks.Coherent) :
      Act e { e with locks, nextTxn }
  /-- Objects are held, let go or dropped; the cached copies stay as they are, or some of them go. -/
  | fewer {c : Cache} (hc : c.Sound) (hfew : ∀ p page, c.copy? p = some page → e.cache.copy? p = some page) :
      Act e { e with cache := c }
  /-- A tuple is put on a cached page or taken off it, and the page is marked. -/
  | changed {p : PageId} {h : Handle} {page : HeapPage} (c : HeapPage.Change) (txn : TxnId)
      (hh : e.cache.handle? p = some h) (hcopy : e.cache.copy? p = some page) :
      Act e { e with cache := e.cache.setPage h ((page.change c).markDirty txn) }
  /-- A table's file gets one page more. -/
  | appended {t : TableId} {entry : TableEntry} {f : HeapFile} (ht : e.catalog.byId[t]? = some entry)
      (hf : e.store.file? entry.file = some f) : Act e (e.appended entry.file f)

/-- Any number of acts. -/
abbrev Acts : Engine → Engine → Prop := Relation.ReflTransGen Act

variable {e e' e'' : Engine} {p : PageId} {h : Handle} {page : HeapPage} {txn : TxnId}

theorem Moves.acts (h : Moves e e') : Acts e e' := Relation.ReflTransGen.mono (fun _ _ => .moved) _ _ h

theorem Acts.lock (h : Acts e e') (p : PageId) (txn : TxnId) (mode : LockMode) :
    Acts e { e' with locks := (e'.locks.acquireAlone p txn mode).2 } :=
  h.tail (.locked fun hc => hc.acquireAlone p txn mode)

theorem Acts.release (h : Acts e e') (p : PageId) (txn : TxnId) :
    Acts e { e' with locks := (e'.locks.release p txn).2 } :=
  h.tail (.locked fun hc => hc.release p txn)

theorem Act.consistent (h : Act e e') (he : e.Consistent) : e'.Consistent := by
  cases h with
  | moved hmove => exact (hmove.keeps he).consistent
  | @locked locks nextTxn =>
    have hkeeps : e.Keeps { e with locks, nextTxn } := he.keeps_of_same_store rfl rfl rfl
    exact hkeeps.consistent
  | fewer hc hfew => exact he.of_fewer_copies hc hfew
  | @changed p h page c txn hh hcopy =>
    obtain ⟨hwf, hid, hschema⟩ := (he.fits p page hcopy).1.change c
    have hpage : page.id = p := he.sound.id_of_copy hcopy
    have hmarked : ((page.change c).markDirty txn).dirtiedBy ≠ none := by simp [HeapPage.markDirty]
    exact (he.changes_setPage hh hcopy (hwf.markDirty txn) (hid.trans hpage) hschema hmarked).consistent
  | appended ht hf => exact (he.grows_append ht hf).consistent

/-- A changed page is that of a cached copy, or of an object that is nobody's copy. -/
theorem act_edit (he : e.Consistent) (c : HeapPage.Change) (txn : TxnId) (hheld : e.cache.isHeld h = true)
    (hpage : e.cache.page? h = some page) :
    Act e { e with cache := e.cache.setPage h ((page.change c).markDirty txn) } := by
  obtain ⟨hid, -⟩ := Cache.isHeld_iff.1 hheld
  by_cases hh : e.cache.handle? h.page = some h
  · exact .changed c txn hh ((Cache.copy?_eq_of_handle? hh).trans hpage)
  · have hsame : ((page.change c).markDirty txn).id = page.id := HeapPage.id_change page c
    have hnot : ∀ q, e.cache.handle? q ≠ some h := fun q hq => hh ((Cache.handle?_eq_some_iff.1 hq).2 ▸ hq)
    refine .fewer (he.sound.setPage_of_id hpage hsame) fun q other hcopy => ?_
    rwa [he.sound.copy?_setPage_of_ne hid (hnot q)] at hcopy

/-- What every act keeps is kept by all of them. -/
theorem Acts.induct {P : Engine → Prop} (h : Acts e e') (he : e.Consistent) (hstart : P e)
    (hstep : ∀ e₁ e₂, e₁.Consistent → P e₁ → Act e₁ e₂ → P e₂) : e'.Consistent ∧ P e' := by
  induction h with
  | refl => exact ⟨he, hstart⟩
  | tail _ hact ih => exact ⟨hact.consistent ih.1, hstep _ _ ih.1 ih.2 hact⟩

theorem Acts.consistent (h : Acts e e') (he : e.Consistent) : e'.Consistent :=
  (h.induct he trivial fun _ _ _ _ _ => trivial).1

/-- Both sides of the lock table go on to agree. -/
theorem Act.coherent (h : Act e e') (hc : e.locks.Coherent) : e'.locks.Coherent := by
  cases h with
  | moved hmove => exact hmove.locks ▸ hc
  | locked hlocks => exact hlocks hc
  | fewer => exact hc
  | changed => exact hc
  | appended => exact hc

theorem Acts.coherent (h : Acts e e') (hc : e.locks.Coherent) : e'.locks.Coherent := by
  induction h with
  | refl => exact hc
  | tail _ hact ih => exact hact.coherent ih

end Engine

open Engine

namespace Op

variable {e e' : Engine} {p : PageId} {h : Handle} {page : HeapPage} {txn : TxnId} {table : TableId} {t : Tuple}

/-! ### Coming to a page -/

theorem ends_getPage_acts (he : e.Consistent) (txn : TxnId) (p : PageId) (access : Access) :
    Ends (getPage txn p access) e (fun _ e' => Acts e e') fun _ e' => Acts e e' := by
  unfold getPage holdsLock lock
  simp only [ends_bind, ends_get, ends_pure, ends_tryCatch, ends_modify]
  have hlocked : Acts e { e with locks := (e.locks.acquireAlone p txn access.lockMode).2 } :=
    Acts.lock .refl p txn access.lockMode
  cases (e.locks.acquireAlone p txn access.lockMode).1 with
  | false => exact hlocked
  | true =>
    refine (ends_fetch_moves (hlocked.consistent he) p).mono (fun _ _ hfetch => hlocked.trans hfetch.1.acts) ?_
    intro cause e' hfetch
    have hacts : Acts e e' := by
      obtain ⟨-, rfl, -⟩ | ⟨hmoves, -⟩ := hfetch
      · exact hlocked
      · exact hlocked.trans hmoves.acts
    cases e.locks.holds p txn with
    | true => exact hacts
    | false => exact hacts.release p txn

/-- The page that is given is a cached copy. -/
theorem ends_getPage_copy_acts (he : e.Consistent) (txn : TxnId) (p : PageId) (access : Access) :
    Ends (getPage txn p access) e
      (fun h e' => Acts e e' ∧ e'.cache.handle? p = some h ∧
        ∃ page, e'.cache.page? h = some page ∧ e'.cache.copy? p = some page)
      fun _ e' => Acts e e' := by
  refine ((ends_getPage he txn p access).and (ends_getPage_acts he txn p access)).mono ?_ fun _ _ h => h.2
  rintro h e' ⟨⟨hquiet, hhandle, -⟩, hacts⟩
  obtain ⟨page, hpage, hcopy, -⟩ := hquiet.consistent.sound.exists_copy hhandle
  exact ⟨hacts, hhandle, page, hpage, hcopy⟩

theorem ends_probe_acts (he : e.Consistent) (txn : TxnId) (p : PageId) :
    Ends (probe txn p) e (fun _ e' => Acts e e') fun _ e' => Acts e e' := by
  unfold probe
  rw [ends_bind]
  refine (ends_getPage_copy_acts he txn p .readOnly).mono ?_ fun _ _ h => h
  rintro h e₁ ⟨hacts, -, page, hpage, -⟩
  rw [ends_bind, ends_page hpage, ends_pure]
  exact hacts

/-! ### Inserting -/

theorem ends_getPage_readWrite_acts (he : e.Consistent) (txn : TxnId) (p : PageId) :
    Ends (getPage txn p .readWrite) e
      (fun h e' => Acts e e' ∧ e'.Consistent ∧ e'.locks.mode? p txn = some .exclusive ∧
        e'.cache.handle? p = some h ∧ ∃ page, e'.cache.page? h = some page ∧ e'.cache.copy? p = some page)
      fun _ e' => Acts e e' := by
  refine ((ends_getPage_readWrite he txn p).and (ends_getPage_acts he txn p .readWrite)).mono ?_ fun _ _ h => h.2
  rintro h e' ⟨⟨hquiet, hgiven⟩, hacts⟩
  exact ⟨hacts, hquiet.consistent, hgiven⟩

theorem ends_insertInto_acts (he : e.Consistent) (txn : TxnId) (p : PageId) (t : Tuple) :
    Ends (insertInto txn p t) e (fun result e' => ∃ e₁, Acts e e₁ ∧ Placed txn p t result e₁ e')
      fun _ e' => Acts e e' := by
  unfold insertInto
  rw [ends_bind]
  refine (ends_getPage_readWrite_acts he txn p).mono ?_ fun _ _ hacts => hacts
  rintro h e₁ ⟨hacts, he₁, howned, hhandle, page, hpage, hcopy⟩
  unfold insertOn setPage modifyCache
  simp only [ends_bind, ends_page hpage, ends_liftExcept, ends_modify, ends_pure]
  refine ⟨fun result hinsert => ?_, fun _ _ => hacts⟩
  exact ⟨e₁, hacts, he₁, howned, hhandle, page, result.2, hcopy, hinsert, rfl⟩

theorem ends_tryPage_acts (he : e.Consistent) (txn : TxnId) (t : Tuple) (p : PageId) :
    Ends (tryPage txn t p) e
      (fun result e' => match result with
        | some placed => ∃ e₁, Acts e e₁ ∧ Placed txn p t placed e₁ e'
        | none => Acts e e')
      fun _ e' => Acts e e' := by
  unfold tryPage holdsLock
  simp only [ends_bind, ends_get, ends_pure]
  refine (ends_probe_acts he txn p).mono (fun room e₁ hprobe => ?_) fun _ _ hacts => hacts
  cases room with
  | false => cases e.locks.holds p txn with
    | true => exact hprobe
    | false => exact hprobe.release p txn
  | true =>
    simp only [if_true, ends_bind]
    refine (ends_getPage_readWrite_acts (hprobe.consistent he) txn p).mono ?_ fun _ _ hacts => hprobe.trans hacts
    rintro h e₂ ⟨hacts, he₂, howned, hhandle, page, hpage, hcopy⟩
    rw [ends_page hpage]
    have hdone : Acts e e₂ := hprobe.trans hacts
    cases hinsert : page.insert t with
    | ok result => exact ⟨e₂, hdone, he₂, howned, hhandle, page, result.2, hcopy, hinsert, rfl⟩
    | error cause => cases cause <;> exact hdone

theorem ends_insertFirstFit_acts {entry : TableEntry} (he : e.Consistent) (ht : e.catalog.byId[table]? = some entry)
    (txn : TxnId) (t : Tuple) (pages : List Nat) :
    Ends (insertFirstFit entry.file txn t table pages) e
      (fun result e' => ∃ p e₁, Acts e e₁ ∧ Placed txn p t result e₁ e') fun _ e' => Acts e e' := by
  induction pages generalizing e with
  | nil =>
    obtain ⟨f, hf, -⟩ := he.opened table entry ht
    have happended : Acts e (e.appended entry.file f) := .single (.appended ht hf)
    unfold insertFirstFit
    rw [ends_bind, ends_onFiles, FileOp.ends_allocate hf]
    refine (ends_insertInto_acts (happended.consistent he) txn f.nextPage t).mono ?_ fun _ _ => happended.trans
    rintro result e' ⟨e₁, hacts, hplaced⟩
    exact ⟨f.nextPage, e₁, happended.trans hacts, hplaced⟩
  | cons n rest ih =>
    rw [insertFirstFit_cons, ends_bind]
    refine ((ends_tryPage he txn t ⟨table, n⟩).and (ends_tryPage_acts he txn t ⟨table, n⟩)).mono ?_ fun _ _ h => h.2
    rintro result e₁ ⟨htry, hacts⟩
    cases result with
    | some placed =>
      obtain ⟨e₂, hacts, hplaced⟩ := hacts
      exact ⟨⟨table, n⟩, e₂, hacts, hplaced⟩
    | none =>
      obtain ⟨hquiet, -⟩ : Quiet txn e e₁ ∧ e.Full ⟨table, n⟩ := htry
      have hbefore : Acts e e₁ := hacts
      refine (ih hquiet.consistent (hquiet.catalog ▸ ht)).mono ?_ fun _ _ => hbefore.trans
      rintro placed e' ⟨p, e₂, hacts, hplaced⟩
      exact ⟨p, e₂, hbefore.trans hacts, hplaced⟩

/-- Putting the tuple on the page and marking the page come to one act. -/
theorem ends_markDirty_adopt_acts {result : Tuple × Handle} (h : Placed txn p t result e e') :
    Ends (do markDirty result.2 txn; adopt result.2; return result.2) e' (fun _ e'' => Acts e e'')
      fun _ e'' => Acts e e'' := by
  obtain ⟨he, -, hhandle, page, page', hcopy, hinsert, rfl⟩ := h
  have htarget : result.2.page = p := (Cache.handle?_eq_some_iff.1 hhandle).2
  have hobject : ({ e with cache := e.cache.setPage result.2 page' } : Engine).cache.page? result.2 = some page' :=
    he.sound.page?_setPage hhandle page'
  have hchange : Act e { e with cache := e.cache.setPage result.2 (page'.markDirty txn) } := by
    have hact := Act.changed (.insert t) txn hhandle hcopy
    rwa [HeapPage.change_of_insert hinsert] at hact
  unfold markDirty adopt setPage modifyCache
  simp only [ends_bind, ends_page hobject, ends_modify, ends_get, ends_pure,
    Cache.setPage_setPage, Cache.handle?_setPage, htarget, hhandle, if_true]
  have hcached : ((e.cache.setPage result.2 (page'.markDirty txn)).handle? p).isSome = true := by
    rw [Cache.handle?_setPage, hhandle, Option.isSome_some]
  exact (Relation.ReflTransGen.single hchange).tail (.moved (.touched hcached))

theorem settles_insert_acts (he : e.Consistent) (txn : TxnId) (table : TableId) (t : Tuple) :
    Settles (insert txn table t) e fun _ e' => Acts e e' := by
  unfold insert
  rw [settles_bind, settles_run, ends_bind]
  cases ht : e.catalog.byId[table]? with
  | none => exact (ends_tableFile_of_none ht).2 .refl
  | some entry =>
    obtain ⟨f, hf, htable, -⟩ := he.opened table entry ht
    have hfirst : Ends (insertIntoFile entry.file txn t) e
        (fun result e' => ∃ p e₁, Acts e e₁ ∧ Placed txn p t result e₁ e') fun _ e' => Acts e e' := by
      unfold insertIntoFile
      rw [ends_bind, ends_onFiles, FileOp.ends_file hf, htable]
      split
      · exact ends_insertFirstFit_acts he ht txn t _
      · exact .refl
    rw [ends_tableFile ht]
    refine hfirst.mono ?_ fun _ _ h => h
    rintro result e₂ ⟨p, e₁, hacts, hplaced⟩
    dsimp only
    rw [settles_bind, settles_run]
    exact (ends_markDirty_adopt_acts hplaced).mono (fun _ _ => hacts.trans) fun _ _ => hacts.trans

/-! ### Deleting and flushing -/

theorem ends_delete_acts (he : e.Consistent) (txn : TxnId) (r : Option RecordId) :
    Ends (delete txn r) e (fun _ e' => Acts e e') fun _ e' => Acts e e' := by
  unfold delete
  cases r with
  | none => exact .refl
  | some rid =>
    dsimp only
    rw [ends_bind, ends_get]
    split
    · rw [ends_bind]
      cases ht : e.catalog.byId[rid.page.table]? with
      | none => exact (ends_tableFile_of_none ht).2 .refl
      | some entry =>
        obtain ⟨f, hf, htable, -⟩ := he.opened _ entry ht
        unfold deleteFromFile
        rw [ends_tableFile ht]
        simp only [ends_bind, ends_onFiles, FileOp.ends_file hf, htable, if_true]
        refine (ends_getPage_readWrite_acts he txn rid.page).mono ?_ fun _ _ h => h
        rintro h e₁ ⟨hacts, he₁, -, hhandle, page, hpage, hcopy⟩
        rw [ends_page hpage, ends_liftExcept]
        refine ⟨fun page' hdelete => ?_, fun _ _ => hacts⟩
        have hobject : ({ e₁ with cache := e₁.cache.setPage h page' } : Engine).cache.page? h = some page' :=
          he₁.sound.page?_setPage hhandle page'
        have hact := Act.changed (.delete (some rid)) txn hhandle hcopy
        rw [HeapPage.change_of_delete hdelete] at hact
        unfold markDirty setPage modifyCache
        simp only [ends_bind, ends_modify, ends_pure, ends_page hobject, Cache.setPage_setPage]
        exact hacts.tail hact
    · exact .refl

theorem ends_flushWhere_acts (he : e.Consistent) {due : HeapPage → Bool}
    (hdue : ∀ page, due page = true → page.dirtiedBy ≠ none) :
    Ends (flushWhere due) e (fun _ e' => Acts e e') fun _ _ => False :=
  (ends_flushWhere_moves he hdue).mono_ok fun _ _ hmoves => hmoves.acts

theorem ends_flushTxn_acts (he : e.Consistent) (txn : TxnId) :
    Ends (flushTxn txn) e (fun _ e' => Acts e e') fun _ _ => False :=
  ends_flushWhere_acts he fun page hdue => by
    simp only [decide_eq_true_eq] at hdue
    simp [hdue]

theorem ends_flushPage_acts (he : e.Consistent) (p : PageId) :
    Ends (flushPage p) e (fun _ e' => Acts e e') fun _ _ => False := by
  unfold flushPage
  rw [ends_bind, ends_get]
  cases hh : e.cache.handle? p with
  | none => exact .refl
  | some h =>
    dsimp only
    rw [ends_bind]
    exact (ends_writeIfDue_moves isDirty_due he hh).mono_ok fun _ _ hmoves => hmoves.acts

end Op

/-! ### Scanning -/

namespace Scan

variable {e : Engine}

theorem settles_look_acts (he : e.Consistent) (table : TableId) (txn : TxnId) (pos : Position) :
    Settles (look table txn pos) e fun _ e' => Acts e e' := by
  unfold look
  simp only [settles_bind, settles_get, settles_run, ends_bind]
  refine (Op.ends_getPage_copy_acts he txn ⟨table, pos.page⟩ .readOnly).mono ?_ fun _ _ hacts => hacts
  rintro h e₁ ⟨hacts, -, page, hpage, -⟩
  rw [Op.ends_page hpage]
  cases (page.nextUsed? pos.slot).bind fun slot => (page.tuple? slot).map (slot, ·) with
  | some found => exact hacts
  | none =>
    dsimp only
    split
    · exact hacts.release _ txn
    · exact hacts

theorem settles_search_acts (he : e.Consistent) (table : TableId) (txn : TxnId) (pages : Nat) (pos : Position) :
    Settles (search table txn pages pos) e fun _ e' => Acts e e' := by
  induction pages generalizing e pos with
  | zero => exact .refl
  | succ pages ih =>
    rw [search_succ, settles_bind]
    apply (settles_look_acts he table txn pos).mono
    intro answer e₁ hacts
    cases answer with
    | some answer => exact hacts
    | none => exact (ih (hacts.consistent he) ⟨pos.page + 1, 0⟩).mono fun _ _ => hacts.trans

theorem settles_seek_acts (he : e.Consistent) (s : Scan) : Settles s.seek e fun _ e' => Acts e e' := by
  unfold seek
  rw [settles_bind, settles_get]
  cases e.store.file? s.file with
  | none => exact .refl
  | some f => exact settles_search_acts he f.table s.txn (f.numPages - s.position.page) s.position

theorem settles_hasNext_acts (he : e.Consistent) (s : Scan) : Settles s.hasNext e fun _ e' => Acts e e' := by
  unfold hasNext
  cases s.isOpen with
  | false => exact .refl
  | true => exact settles_seek_acts he s

theorem settles_next_acts (he : e.Consistent) (s : Scan) : Settles s.next e fun _ e' => Acts e e' := by
  unfold next
  cases s.isOpen with
  | false => exact .refl
  | true =>
    simp only [Bool.not_true, Bool.false_eq_true, if_false, settles_bind]
    apply (settles_seek_acts he s).mono
    rintro ⟨result, s'⟩ e' hacts
    cases result with
    | error cause => exact hacts
    | ok found => cases found <;> exact hacts

end Scan

/-! ### Calls -/

namespace Call

variable {e e' : Engine} {c : Call}

theorem settles_hold_acts (hacts : Acts e e') (he : e.Consistent) (keep : Bool) (outcome : Except StorageError Handle) :
    Settles (hold keep outcome) e' fun _ e'' => Acts e e'' := by
  unfold hold
  cases outcome with
  | error cause => exact hacts
  | ok h => cases keep with
    | false => exact hacts
    | true =>
      refine hacts.tail (.fewer ((hacts.consistent he).sound.hold h) fun p page hcopy => ?_)
      exact (Cache.copy?_hold h p).symm.trans hcopy

/-- An operation of the engine that is a call as it is. -/
theorem settles_run_acts_of_ends {α : Type} {op : Op α} {answer : Except StorageError α → Reply}
    (hrun : c.run = (do return answer (← op.run)))
    (hends : Ends op e (fun _ e' => Acts e e') fun _ e' => Acts e e') : Settles c.run e fun _ e' => Acts e e' := by
  rw [hrun, settles_bind, HeapStore.settles_run]
  exact hends.mono (fun _ _ h => h) fun _ _ h => h

theorem settles_run_acts (he : e.Consistent) (c : Call) : Settles c.run e fun _ e' => Acts e e' := by
  cases c with
  | getPage txn p access keep =>
    unfold run
    rw [settles_bind, HeapStore.settles_run]
    exact (Op.ends_getPage_acts he txn p access).mono (fun h _ hacts => settles_hold_acts hacts he keep (.ok h))
      fun cause _ hacts => settles_hold_acts hacts he keep (.error cause)
  | insert txn table t keep =>
    unfold run
    rw [settles_bind]
    exact (Op.settles_insert_acts he txn table t).mono fun _ _ hacts => settles_hold_acts hacts he keep _
  | delete txn r keep =>
    unfold run
    rw [settles_bind, HeapStore.settles_run]
    exact (Op.ends_delete_acts he txn r).mono (fun h _ hacts => settles_hold_acts hacts he keep (.ok h))
      fun cause _ hacts => settles_hold_acts hacts he keep (.error cause)
  | releasePage txn p => exact Acts.release .refl p txn
  | flushPage p => exact settles_run_acts_of_ends rfl ((Op.ends_flushPage_acts he p).mono_ok fun _ _ h => h)
  | flushTxn txn => exact settles_run_acts_of_ends rfl ((Op.ends_flushTxn_acts he txn).mono_ok fun _ _ h => h)
  | flushAll =>
    exact settles_run_acts_of_ends rfl ((Op.ends_flushWhere_acts he Op.isDirty_due).mono_ok fun _ _ h => h)
  | commit txn =>
    unfold run Op.commit Op.releaseAll
    simp only [settles_bind, HeapStore.settles_run, ends_bind, ends_tryCatch, ends_modify]
    exact (Op.ends_flushTxn_acts he txn).mono_ok fun _ _ hacts => hacts.tail (.locked fun hc => hc.releaseAll txn)
  | abort txn => exact .single (.locked fun hc => hc.releaseAll txn)
  | hasNext s =>
    unfold run
    rw [settles_bind]
    exact (Scan.settles_hasNext_acts he s).mono fun _ _ h => h
  | next s =>
    unfold run
    rw [settles_bind]
    exact (Scan.settles_next_acts he s).mono fun _ _ h => h
  | drop h =>
    unfold run
    rw [settles_bind, settles_get]
    cases hheld : e.cache.isHeld h with
    | false => exact .refl
    | true =>
      refine .single (.fewer (he.sound.letGo hheld) fun p page hcopy => ?_)
      exact (he.sound.copy?_letGo hheld p).symm.trans hcopy

/-- Whatever a call does, it does by acts. -/
theorem acts (he : e.Consistent) (c : Call) : Acts e (c.after e) := settles_run_acts he c

end Call

end HeapStore
