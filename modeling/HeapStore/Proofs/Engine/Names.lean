import HeapStore.Proofs.Engine.Cursors
import HeapStore.Proofs.Page.Names

/-!
# Columns by name, through the cache

While every tuple that is inserted goes by the names of its table, all cached copies are `HeapPage.Named`: pages that
are read are, and nothing else brings tuples to a page. So what a column name gives is said by the stored row and by the
table's schema, whether or not the page was written and read again in the meantime (`reading_by_name`). A tuple that
goes by other names gives them up only when its page is read again (`names_lost_by_reload`).
-/

namespace HeapStore

namespace Engine

variable {e e' : Engine} {p : PageId} {h : Handle} {page : HeapPage} {t : TableId} {tuple : Tuple}

/-- Every cached copy goes by the names of its table. -/
def Named (e : Engine) : Prop := ∀ p page, e.cache.copy? p = some page → page.Named

/-- Does the tuple go by the names of the table, if there is one? -/
def Knows (e : Engine) (t : TableId) (tuple : Tuple) : Prop :=
  ∀ f, e.file? t = some f → tuple.schema.SameNames f.schema

theorem SameFiles.knows (h : e.SameFiles e') (hknows : e.Knows t tuple) : e'.Knows t tuple := by
  intro f' hf'
  obtain ⟨f, hf, heq⟩ := h.exists_file' hf'
  obtain ⟨-, hschema, -⟩ := HeapFile.uncounted_eq_iff.1 heq
  exact hschema ▸ hknows f hf

theorem SameFiles.symm (h : e.SameFiles e') : e'.SameFiles e := ⟨h.catalog.symm, fun t => (h.files t).symm⟩

/-- A tuple on a cached copy goes by the names of the table. -/
theorem Named.knows (hn : e.Named) (he : e.Consistent) (hcopy : e.cache.copy? p = some page) {slot : Nat}
    (htuple : page.tuple? slot = some tuple) : e.Knows p.table tuple := by
  intro f hf
  obtain ⟨-, f', hf', hschema, -⟩ := he.fits p page hcopy
  obtain rfl := Option.some.inj (hf.symm.trans hf')
  exact hschema ▸ hn p page hcopy slot tuple htuple

/-! ### What keeps the names -/

theorem Named.of_copies (hn : e.Named)
    (hcopies : ∀ q page, e'.cache.copy? q = some page → e.cache.copy? q = some page) : e'.Named :=
  fun q page hq => hn q page (hcopies q page hq)

/-- One copy is another page now. -/
theorem Named.of_new_copy (hn : e.Named) (hpage : page.Named)
    (hcopies : ∀ q, e'.cache.copy? q = if q = p then some page else e.cache.copy? q) : e'.Named := by
  intro q page' hq
  rw [hcopies] at hq
  split at hq
  · exact Option.some.inj hq ▸ hpage
  · exact hn q page' hq

theorem named_of_stored (he : e.TablesOpen) (hpage : e.stored p = .ok page) : page.Named := by
  obtain ⟨f, hf, hhas, hload⟩ := he.exists_file_of_stored hpage
  rw [(he.onDisk hf).load_eq hhas] at hload
  exact HeapPage.named_of_decode hload

theorem Move.named (h : Move e e') (he : e.Consistent) (hn : e.Named) : e'.Named := by
  cases h with
  | counted => exact hn
  | touched => exact hn
  | @written p h page entry f hh hcopy =>
    exact hn.of_new_copy (hn p page hcopy).markClean (he.sound.copy?_setPage hh page.markClean)
  | removed =>
    exact hn.of_copies fun q page => he.sound.copy?_of_copy?_remove _
  | @loaded p page hpage hmissing =>
    obtain ⟨-, rfl, -⟩ := he.fits_stored hpage
    exact hn.of_new_copy (named_of_stored he.toTablesOpen hpage) (he.sound.copy?_load hmissing)

theorem Moves.named (h : Moves e e') (he : e.Consistent) (hn : e.Named) : e'.Named := by
  induction h with
  | refl => exact hn
  | tail hmoves hmove ih => exact hmove.named (Moves.keeps hmoves he).consistent ih

end Engine

open Engine

namespace Op

variable {e e' : Engine} {p : PageId} {h : Handle} {page : HeapPage} {txn : TxnId} {table : TableId} {t : Tuple}

theorem ends_getPage_named (he : e.Consistent) (hn : e.Named) (txn : TxnId) (p : PageId) (access : Access) :
    Ends (getPage txn p access) e (fun _ e' => e'.Named) fun _ e' => e'.Named := by
  unfold getPage holdsLock
  simp only [ends_bind, ends_get, ends_pure, ends_tryCatch]
  apply (ends_lock e txn p access.lockMode).mono
  · rintro - - ⟨locks, rfl, -⟩
    have he' := (he.keeps_locks locks).consistent
    apply (ends_fetch_moves he' p).mono
    · exact fun _ _ hfetch => hfetch.1.named he' hn
    · intro cause e' hfetch
      have hn' : e'.Named := by
        obtain ⟨-, rfl, -⟩ | ⟨hmoves, -⟩ := hfetch
        · exact hn
        · exact hmoves.named he' hn
      cases e.locks.holds p txn with
      | true => exact hn'
      | false => exact hn'
  · rintro cause - ⟨-, locks, rfl, -⟩
    exact hn

/-- The page that is given is a cached copy, which goes by the names of its table. -/
theorem ends_getPage_copy_named (he : e.Consistent) (hn : e.Named) (txn : TxnId) (p : PageId) (access : Access) :
    Ends (getPage txn p access) e
      (fun h e' => Quiet txn e e' ∧ e'.Named ∧ e'.cache.handle? p = some h ∧
        ∃ page, e'.cache.page? h = some page ∧ e'.cache.copy? p = some page)
      fun _ e' => Quiet txn e e' ∧ e'.Named := by
  refine ((ends_getPage he txn p access).and (ends_getPage_named he hn txn p access)).mono ?_ fun _ _ h => h
  rintro h e' ⟨⟨hquiet, hhandle, -⟩, hn'⟩
  obtain ⟨page, hpage, hcopy, -⟩ := hquiet.consistent.sound.exists_copy hhandle
  exact ⟨hquiet, hn', hhandle, page, hpage, hcopy⟩

/-! ### Inserting -/

/-- The page with one tuple more, which goes by the names of the table. -/
theorem named_of_insert (he : e.Consistent) (hn : e.Named) (hknows : e.Knows p.table t)
    (hh : e.cache.handle? p = some h) (hcopy : e.cache.copy? p = some page) {result : Tuple × HeapPage}
    (hinsert : page.insert t = .ok result) :
    result.2.Named ∧ ({ e with cache := e.cache.setPage h result.2 } : Engine).Named := by
  obtain ⟨hwf, f, hf, hschema, -⟩ := he.fits p page hcopy
  have hpage : result.2.Named := (hn p page hcopy).insert hwf (hschema ▸ hknows f hf) hinsert
  exact ⟨hpage, hn.of_new_copy hpage (he.sound.copy?_setPage hh result.2)⟩

theorem ends_insertInto_named (he : e.Consistent) (hn : e.Named) (hknows : e.Knows p.table t) :
    Ends (insertInto txn p t) e (fun _ e' => e'.Named) fun _ e' => e'.Named := by
  unfold insertInto
  rw [ends_bind]
  refine (ends_getPage_copy_named he hn txn p .readWrite).mono ?_ fun _ _ h => h.2
  rintro h e₁ ⟨hquiet, hn₁, hhandle, page, hpage, hcopy⟩
  unfold insertOn setPage modifyCache
  simp only [ends_bind, ends_page hpage, ends_liftExcept, ends_modify, ends_pure]
  exact ⟨fun result hinsert =>
    (named_of_insert hquiet.consistent hn₁ (hquiet.knows hknows) hhandle hcopy hinsert).2, fun _ _ => hn₁⟩

theorem ends_probe_named (he : e.Consistent) (hn : e.Named) (txn : TxnId) (p : PageId) :
    Ends (probe txn p) e (fun _ e' => e'.Named) fun _ e' => e'.Named := by
  unfold probe
  rw [ends_bind]
  refine (ends_getPage_copy_named he hn txn p .readOnly).mono ?_ fun _ _ h => h.2
  rintro h e₁ ⟨-, hn₁, -, page, hpage, -⟩
  rw [ends_bind, ends_page hpage, ends_pure]
  exact hn₁

theorem ends_tryPage_named (he : e.Consistent) (hn : e.Named) (hknows : e.Knows p.table t) :
    Ends (tryPage txn t p) e (fun _ e' => e'.Named) fun _ e' => e'.Named := by
  unfold tryPage holdsLock
  simp only [ends_bind, ends_get, ends_pure]
  refine ((ends_probe he txn p).and (ends_probe_named he hn txn p)).mono ?_ fun _ _ h => h.2
  rintro room e₁ ⟨⟨hprobe, -⟩, hn₁⟩
  cases room with
  | false => cases e.locks.holds p txn <;> exact hn₁
  | true =>
    have he₁ := hprobe.consistent
    simp only [if_true, ends_bind]
    refine (ends_getPage_copy_named he₁ hn₁ txn p .readWrite).mono ?_ fun _ _ h => h.2
    rintro h e₂ ⟨hquiet, hn₂, hhandle, page, hpage, hcopy⟩
    rw [ends_page hpage]
    cases hinsert : page.insert t with
    | ok result =>
      have hknows₂ := (hprobe.trans hquiet).knows hknows
      exact (named_of_insert hquiet.consistent hn₂ hknows₂ hhandle hcopy hinsert).2
    | error cause => cases cause <;> exact hn₂

theorem ends_insertFirstFit_named {entry : TableEntry} (he : e.Consistent) (hn : e.Named)
    (ht : e.catalog.byId[table]? = some entry) (hknows : e.Knows table t) (txn : TxnId) (pages : List Nat) :
    Ends (insertFirstFit entry.file txn t table pages) e (fun _ e' => e'.Named) fun _ e' => e'.Named := by
  induction pages generalizing e with
  | nil =>
    obtain ⟨f, hf, htable, -⟩ := he.opened table entry ht
    have hgrows := he.grows_append ht hf
    have hfile : e.file? table = some f := (file?_of_entry ht).trans hf
    unfold insertFirstFit
    rw [ends_bind, ends_onFiles, FileOp.ends_allocate hf]
    refine ends_insertInto_named hgrows.consistent hn fun g hg => ?_
    -- The file has the schema that it had before it got one page more.
    change (e.appended entry.file f).file? f.nextPage.table = some g at hg
    rw [he.file?_appended ht, if_pos (show f.nextPage.table = table from htable)] at hg
    exact Option.some.inj hg ▸ hknows f hfile
  | cons n rest ih =>
    rw [insertFirstFit_cons, ends_bind]
    refine ((ends_tryPage he txn t ⟨table, n⟩).and (ends_tryPage_named he hn hknows)).mono ?_ fun _ _ h => h.2
    rintro result e₁ ⟨htry, hn₁⟩
    cases result with
    | some placed => exact hn₁
    | none =>
      obtain ⟨hquiet, -⟩ : Quiet txn e e₁ ∧ e.Full ⟨table, n⟩ := htry
      exact ih hquiet.consistent hn₁ (hquiet.catalog ▸ ht) (hquiet.knows hknows)

/-- Marking the page and adopting its object bring no tuple to a page. -/
theorem ends_markDirty_adopt_named {result : Tuple × Handle} (h : Placed txn p t result e e') (hn : e'.Named) :
    Ends (do markDirty result.2 txn; adopt result.2; return result.2) e' (fun _ e'' => e''.Named)
      fun _ e'' => e''.Named := by
  obtain ⟨he, -, hhandle, page, page', hcopy, -, rfl⟩ := h
  have htarget : result.2.page = p := (Cache.handle?_eq_some_iff.1 hhandle).2
  have hcopies := he.sound.copy?_setPage hhandle page'
  have hpage' : page'.Named := hn p page' ((hcopies p).trans (if_pos rfl))
  have hmarked := he.sound.copy?_setPage hhandle (page'.markDirty txn)
  have hobject : ({ e with cache := e.cache.setPage result.2 page' } : Engine).cache.page? result.2 = some page' :=
    he.sound.page?_setPage hhandle page'
  unfold markDirty adopt setPage modifyCache
  simp only [ends_bind, ends_page hobject, ends_modify, ends_get, ends_pure,
    Cache.setPage_setPage, Cache.handle?_setPage, htarget, hhandle, if_true]
  refine hn.of_new_copy (p := p) (hpage'.markDirty txn) fun q => ?_
  rw [hcopies]
  refine (hmarked q).trans ?_
  split <;> rfl

theorem settles_insert_named (he : e.Consistent) (hn : e.Named) (hknows : e.Knows table t) (txn : TxnId) :
    Settles (insert txn table t) e fun _ e' => e'.Named := by
  unfold insert
  rw [settles_bind, settles_run, ends_bind]
  cases ht : e.catalog.byId[table]? with
  | none =>
    rw [ends_tableFile_of_none ht]
    exact hn
  | some entry =>
    obtain ⟨f, hf, htable, -⟩ := he.opened table entry ht
    have hfirst : Ends (insertIntoFile entry.file txn t) e (fun _ e' => e'.Named) fun _ e' => e'.Named := by
      unfold insertIntoFile
      rw [ends_bind, ends_onFiles, FileOp.ends_file hf, htable]
      split
      · exact ends_insertFirstFit_named he hn ht hknows txn _
      · exact hn
    rw [ends_tableFile ht]
    refine ((ends_insertIntoFile he ht txn t).and hfirst).mono ?_ fun _ _ h => h.2
    rintro result e₁ ⟨⟨p, e₀, -, hplaced⟩, hn₁⟩
    dsimp only
    rw [settles_bind, settles_run]
    exact (ends_markDirty_adopt_named hplaced hn₁).mono (fun _ _ h => h) fun _ _ h => h

/-! ### Deleting and flushing -/

theorem ends_delete_named (he : e.Consistent) (hn : e.Named) (txn : TxnId) (r : Option RecordId) :
    Ends (delete txn r) e (fun _ e' => e'.Named) fun _ e' => e'.Named := by
  unfold delete
  cases r with
  | none => exact hn
  | some rid =>
    dsimp only
    rw [ends_bind, ends_get]
    split
    · rw [ends_bind]
      cases ht : e.catalog.byId[rid.page.table]? with
      | none =>
        rw [ends_tableFile_of_none ht]
        exact hn
      | some entry =>
        obtain ⟨f, hf, htable, -⟩ := he.opened _ entry ht
        unfold deleteFromFile
        rw [ends_tableFile ht]
        simp only [ends_bind, ends_onFiles, FileOp.ends_file hf, htable, if_true]
        refine (ends_getPage_copy_named he hn txn rid.page .readWrite).mono ?_ fun _ _ h => h.2
        rintro h e₁ ⟨hquiet, hn₁, hhandle, page, hpage, hcopy⟩
        have he₁ := hquiet.consistent
        rw [ends_page hpage, ends_liftExcept]
        refine ⟨fun page' hdelete => ?_, fun _ _ => hn₁⟩
        obtain ⟨hwf, -⟩ := he₁.fits _ page hcopy
        have hpage' : page'.Named := (hn₁ _ page hcopy).delete hwf hdelete
        have hobject : ({ e₁ with cache := e₁.cache.setPage h page' } : Engine).cache.page? h = some page' :=
          he₁.sound.page?_setPage hhandle page'
        unfold markDirty setPage modifyCache
        simp only [ends_bind, ends_modify, ends_pure, ends_page hobject, Cache.setPage_setPage]
        exact hn₁.of_new_copy (hpage'.markDirty txn) (he₁.sound.copy?_setPage hhandle _)
    · exact hn

theorem ends_flushWhere_named (he : e.Consistent) (hn : e.Named) {due : HeapPage → Bool}
    (hdue : ∀ page, due page = true → page.dirtiedBy ≠ none) :
    Ends (flushWhere due) e (fun _ e' => e'.Named) fun _ _ => False :=
  (ends_flushWhere_moves he hdue).mono_ok fun _ _ hmoves => hmoves.named he hn

theorem ends_flushTxn_named (he : e.Consistent) (hn : e.Named) (txn : TxnId) :
    Ends (flushTxn txn) e (fun _ e' => e'.Named) fun _ _ => False :=
  ends_flushWhere_named he hn fun page hdue => by
    simp only [decide_eq_true_eq] at hdue
    simp [hdue]

theorem ends_flushPage_named (he : e.Consistent) (hn : e.Named) (p : PageId) :
    Ends (flushPage p) e (fun _ e' => e'.Named) fun _ _ => False := by
  unfold flushPage
  rw [ends_bind, ends_get]
  cases hh : e.cache.handle? p with
  | none => exact hn
  | some h =>
    dsimp only
    rw [ends_bind]
    exact (ends_writeIfDue_moves isDirty_due he hh).mono_ok fun _ _ hmoves => hmoves.named he hn

end Op

/-! ### Scanning -/

namespace Scan

variable {e : Engine}

theorem settles_look_named (he : e.Consistent) (hn : e.Named) (table : TableId) (txn : TxnId) (pos : Position) :
    Settles (look table txn pos) e fun answer e' => e'.Named ∧
      ∀ t pos', answer = some (.ok (some t), pos') → e.Knows table t := by
  unfold look
  simp only [settles_bind, settles_get, settles_run, ends_bind]
  refine (Op.ends_getPage_copy_named he hn txn ⟨table, pos.page⟩ .readOnly).mono ?_ ?_
  · rintro h e₁ ⟨hquiet, hn₁, -, page, hpage, hcopy⟩
    have he₁ := hquiet.consistent
    rw [Op.ends_page hpage]
    cases hfound : (page.nextUsed? pos.slot).bind fun slot => (page.tuple? slot).map (slot, ·) with
    | none =>
      dsimp only
      -- Whether the lock of an empty page is given back makes no difference to the copies.
      split
      · exact ⟨hn₁, by simp⟩
      · exact ⟨hn₁, by simp⟩
    | some found =>
      obtain ⟨slot, -, hslot⟩ := Option.bind_eq_some_iff.1 hfound
      obtain ⟨t, ht, rfl⟩ := Option.map_eq_some_iff.1 hslot
      refine ⟨hn₁, fun t' pos' heq => ?_⟩
      obtain ⟨hsame, -⟩ := Prod.mk.inj (Option.some.inj heq)
      obtain rfl := Option.some.inj (Except.ok.inj hsame)
      exact hquiet.toSameFiles.symm.knows (hn₁.knows he₁ hcopy ht)
  · rintro cause e₁ ⟨-, hn₁⟩
    refine ⟨hn₁, fun t pos' heq => ?_⟩
    obtain ⟨hsame, -⟩ := Prod.mk.inj (Option.some.inj heq)
    simp at hsame

theorem settles_search_named (he : e.Consistent) (hn : e.Named) (table : TableId) (txn : TxnId) (pages : Nat)
    (pos : Position) : Settles (search table txn pages pos) e fun answer e' => e'.Named ∧
      ∀ t, answer.1 = .ok (some t) → e.Knows table t := by
  induction pages generalizing e pos with
  | zero => exact ⟨hn, nofun⟩
  | succ pages ih =>
    rw [search_succ, settles_bind]
    apply ((settles_look he table txn pos).and (settles_look_named he hn table txn pos)).mono
    rintro answer e₁ ⟨hquiet, hn₁, hfound⟩
    cases answer with
    | some answer =>
      obtain ⟨result, pos'⟩ := answer
      rw [settles_pure]
      exact ⟨hn₁, fun t ht => hfound t pos' (congrArg (fun result => some (result, pos')) ht)⟩
    | none =>
      apply (ih hquiet.consistent hn₁ ⟨pos.page + 1, 0⟩).mono
      exact fun _ _ h => ⟨h.1, fun t ht => hquiet.toSameFiles.symm.knows (h.2 t ht)⟩

theorem settles_seek_named (he : e.Consistent) (hn : e.Named) (table : TableId) (s : Scan) :
    Settles s.seek e fun answer e' => e'.Named ∧
      ∀ t, answer.1 = .ok (some t) → e.catalog.file table = .ok s.file → e.Knows table t := by
  unfold seek
  rw [settles_bind, settles_get]
  cases hf : e.store.file? s.file with
  | none => exact ⟨hn, by simp⟩
  | some f =>
    dsimp only
    rw [settles_bind]
    apply (settles_search_named he hn f.table s.txn (f.numPages - s.position.page) s.position).mono
    rintro ⟨result, pos⟩ e' ⟨hn', hfound⟩
    refine ⟨hn', fun t ht hfile => ?_⟩
    obtain ⟨g, hg, rfl, -⟩ := he.exists_file hfile
    obtain rfl := Option.some.inj (hf.symm.trans hg)
    exact hfound t ht

theorem settles_hasNext_named (he : e.Consistent) (hn : e.Named) (s : Scan) :
    Settles s.hasNext e fun _ e' => e'.Named := by
  unfold hasNext
  cases s.isOpen with
  | false => exact hn
  | true => exact (settles_seek_named he hn 0 s).1

theorem settles_next_named (he : e.Consistent) (hn : e.Named) (table : TableId) (s : Scan) :
    Settles s.next e fun answer e' => e'.Named ∧
      ∀ t, answer.1 = .ok t → e.catalog.file table = .ok s.file → e.Knows table t := by
  unfold next
  cases s.isOpen with
  | false => exact ⟨hn, by simp⟩
  | true =>
    simp only [Bool.not_true, Bool.false_eq_true, if_false, settles_bind]
    apply (settles_seek_named he hn table s).mono
    rintro ⟨result, s'⟩ e' ⟨hn', hfound⟩
    cases result with
    | error cause => exact ⟨hn', by simp⟩
    | ok found => cases found with
      | none => exact ⟨hn', by simp⟩
      | some tuple =>
        refine ⟨hn', fun t ht => ?_⟩
        obtain rfl : tuple = t := Except.ok.inj ht
        exact hfound tuple rfl

end Scan

/-! ### Calls -/

namespace Call

variable {e : Engine} {c : Call}

/-- A tuple that the call inserts goes by the names of its table. -/
def GoesByNames (c : Call) (e : Engine) : Prop :=
  ∀ txn table t keep, c = .insert txn table t keep → e.Knows table t

theorem settles_hold_named (hn : e.Named) (keep : Bool) (outcome : Except StorageError Handle) :
    Settles (hold keep outcome) e fun _ e' => e'.Named := by
  unfold hold
  cases outcome with
  | error cause => exact hn
  | ok h => cases keep with
    | false => exact hn
    | true => exact hn.of_copies fun q page hq => (Cache.copy?_hold h q).symm.trans hq

theorem settles_run_named (he : e.Consistent) (hn : e.Named) (hc : c.GoesByNames e) :
    Settles c.run e fun _ e' => e'.Named := by
  cases c with
  | getPage txn p access keep =>
    unfold run
    rw [settles_bind, HeapStore.settles_run]
    exact (Op.ends_getPage_named he hn txn p access).mono (fun h _ hn' => settles_hold_named hn' keep (.ok h))
      fun cause _ hn' => settles_hold_named hn' keep (.error cause)
  | insert txn table t keep =>
    unfold run
    rw [settles_bind]
    exact (Op.settles_insert_named he hn (hc txn table t keep rfl) txn).mono
      fun _ _ hn' => settles_hold_named hn' keep _
  | delete txn r keep =>
    unfold run
    rw [settles_bind, HeapStore.settles_run]
    exact (Op.ends_delete_named he hn txn r).mono (fun h _ hn' => settles_hold_named hn' keep (.ok h))
      fun cause _ hn' => settles_hold_named hn' keep (.error cause)
  | releasePage txn p => exact hn
  | flushPage p =>
    unfold run
    rw [settles_bind, HeapStore.settles_run]
    exact (Op.ends_flushPage_named he hn p).mono_ok fun _ _ h => h
  | flushTxn txn =>
    unfold run
    rw [settles_bind, HeapStore.settles_run]
    exact (Op.ends_flushTxn_named he hn txn).mono_ok fun _ _ h => h
  | flushAll =>
    unfold run
    rw [settles_bind, HeapStore.settles_run]
    exact (Op.ends_flushWhere_named he hn Op.isDirty_due).mono_ok fun _ _ h => h
  | commit txn =>
    unfold run Op.commit Op.releaseAll
    simp only [settles_bind, HeapStore.settles_run, ends_bind, ends_tryCatch, ends_modify]
    exact (Op.ends_flushTxn_named he hn txn).mono_ok fun _ _ h => h
  | abort txn => exact hn
  | hasNext s =>
    unfold run
    rw [settles_bind]
    exact (Scan.settles_hasNext_named he hn s).mono fun _ _ h => h
  | next s =>
    unfold run
    rw [settles_bind]
    exact (Scan.settles_next_named he hn 0 s).mono fun _ _ h => h.1
  | drop h =>
    unfold run
    rw [settles_bind, settles_get]
    cases hheld : e.cache.isHeld h with
    | false => exact hn
    | true => exact hn.of_copies fun q page hq => (he.sound.copy?_letGo hheld q).symm.trans hq

end Call

/-! ### Runs -/

/-- The engines that calls lead to if every tuple that is inserted goes by the names of its table. -/
abbrev Engine.NamedRun : Engine → Prop :=
  Run (fun ev e => ev.Plain e ∧ ∀ c, ev = .call c → c.GoesByNames e) fun _ => False

theorem Engine.NamedRun.reachable {e : Engine} (h : NamedRun e) : Reachable e :=
  Run.mono (fun _ _ hev => hev.1) (fun _ => id) h

theorem Engine.NamedRun.named {e : Engine} (h : NamedRun e) : e.Named := by
  induction h with
  | start disk settings =>
    intro p page hcopy
    have hnone : (Engine.start disk settings).cache.copy? p = none :=
      Cache.copy?_eq_none (by simp [Engine.start, Cache.handle?])
    rw [hnone] at hcopy
    simp at hcopy
  | @event e ev hrun hev ih =>
    have he : e.Consistent := (NamedRun.reachable hrun).consistent
    obtain ⟨hplain, hnames⟩ := hev
    cases ev with
    | call c => exact Call.settles_run_named he ih (hnames c rfl)
    | register name path schema =>
      have hsame := Op.ends_addTable he name schema hplain
      exact (hsame.mono (fun _ e' h' => ih.of_copies fun q page hq => h'.2.1 ▸ hq) fun _ _ h' => h' ▸ ih).always
    | discard p => exact hplain.elim
    | transact locks nextTxn => exact hplain.elim
  | again huse => exact huse.elim
  | edit huse => exact huse.elim

/-- What a column name gives for a slot, by the schema of the table and by what is stored there. -/
def Engine.answer? (e : Engine) (p : PageId) (slot : Nat) (name : String) : Option Value :=
  (e.file? p.table).bind fun f => (e.row p slot).bind fun values => (f.schema.index? name).bind (values[·]?)

/-- What is read by name says the same whether or not a page was written and read again. -/
structure Engine.ReadsByName (e : Engine) : Prop where
  /-- A page that is asked for answers by what is stored. -/
  given : ∀ txn p access keep h, (Call.getPage txn p access keep).reply e = .handle (.ok h) →
    ∃ page, ((Call.getPage txn p access keep).after e).cache.page? h = some page ∧
      ∀ slot name, (page.tuple? slot).bind (·.valueNamed? name) = e.answer? p slot name
  /-- A tuple that a scan gives answers by what is stored. -/
  scanned : ∀ table s t s', e.catalog.file table = .ok s.file → (Call.next s).reply e = .row (.ok t) s' →
    ∃ r, t.recordId = some r ∧ r.page.table = table ∧
      ∀ name, t.valueNamed? name = e.answer? r.page r.slot.toNat name
  /-- A cached page that is written and read again gives the same answers. -/
  reloaded : ∀ p page, e.cache.copy? p = some page →
    ∃ q, HeapPage.decode p page.schema page.block.bytes = .ok q ∧
      ∀ slot name, (q.tuple? slot).bind (·.valueNamed? name) = (page.tuple? slot).bind (·.valueNamed? name)

theorem Engine.Keeps.answer?_eq {e e' : Engine} (h : e.Keeps e') (p : PageId) (slot : Nat) (name : String) :
    e'.answer? p slot name = e.answer? p slot name := by
  unfold answer?
  rw [row_congr (h.content p)]
  cases hf : e.file? p.table with
  | none => rw [h.file?_eq_none hf]
  | some f =>
    obtain ⟨f', hf', heq⟩ := h.exists_file hf
    obtain ⟨-, hschema, -⟩ := HeapFile.uncounted_eq_iff.1 heq
    rw [hf', Option.bind_some, Option.bind_some, hschema]

/-- A tuple that goes by the names of its table answers by what is stored in its slot. -/
theorem Engine.Knows.valueNamed?_eq {e : Engine} {p : PageId} {t : Tuple} {slot : Nat} {f : HeapFile}
    (h : e.Knows p.table t) (hf : e.file? p.table = some f) (hrow : e.row p slot = some t.values) (name : String) :
    t.valueNamed? name = e.answer? p slot name := by
  rw [answer?, hf, Option.bind_some, hrow, Option.bind_some, Tuple.valueNamed?_eq_valueBy (h f hf)]
  rfl

/-- What a cached copy answers by name. -/
theorem Engine.Named.answer {e : Engine} (hn : e.Named) (he : e.Consistent) {p : PageId} {page : HeapPage}
    (hcopy : e.cache.copy? p = some page) (slot : Nat) (name : String) :
    (page.tuple? slot).bind (·.valueNamed? name) = e.answer? p slot name := by
  obtain ⟨-, f, hf, -⟩ := he.fits p page hcopy
  have hrow := row_of_copy hcopy slot
  cases ht : page.tuple? slot with
  | none => rw [answer?, hf, hrow, ht]; rfl
  | some t =>
    rw [ht] at hrow
    exact (hn.knows he hcopy ht).valueNamed?_eq hf hrow name

theorem Call.settles_getPage_answers {e : Engine} (he : e.Consistent) (hn : e.Named) (txn : TxnId) (p : PageId)
    (access : Access) (keep : Bool) :
    Settles (Call.getPage txn p access keep).run e fun reply e' => ∀ h, reply = .handle (.ok h) →
      ∃ page, e'.cache.page? h = some page ∧
        ∀ slot name, (page.tuple? slot).bind (·.valueNamed? name) = e.answer? p slot name := by
  unfold run
  rw [settles_bind, HeapStore.settles_run]
  refine (Op.ends_getPage_copy_named he hn txn p access).mono ?_ ?_
  · rintro h e₁ ⟨hquiet, hn₁, -, page, hpage, hcopy⟩
    rw [settles_bind]
    apply (settles_hold hquiet.consistent keep (.ok h)).mono
    rintro _ e' hholds h' heq
    obtain rfl := Except.ok.inj (Reply.handle.inj heq)
    refine ⟨page, (hholds.pages h).trans hpage, fun slot name => ?_⟩
    rw [hn₁.answer hquiet.consistent hcopy, hquiet.answer?_eq]
  · rintro cause e₁ ⟨hquiet, -⟩
    rw [settles_bind]
    exact (settles_hold hquiet.consistent keep (.error cause)).mono fun _ _ _ _ heq => nomatch Reply.handle.inj heq

theorem Scan.settles_next_answers {e : Engine} (he : e.Consistent) (hn : e.Named) {s : Scan} {table : TableId}
    (hfile : e.catalog.file table = .ok s.file) :
    Settles s.next e fun answer _ => ∀ t, answer.1 = .ok t → ∃ r, t.recordId = some r ∧ r.page.table = table ∧
      ∀ name, t.valueNamed? name = e.answer? r.page r.slot.toNat name := by
  obtain ⟨f, -, -, hf⟩ := he.exists_file hfile
  apply ((settles_next_rows he hfile).and (settles_next_named he hn table s)).mono
  rintro ⟨result, s'⟩ e' ⟨⟨-, pos, -, -, hrows⟩, -, hknows⟩ t rfl
  obtain ⟨-, hstored, r, hr, rfl, rfl⟩ := hrows
  have hrow : e.row r.page r.slot.toNat = some t.values := hstored
  exact ⟨r, hr, rfl, Knows.valueNamed?_eq (p := r.page) (hknows t rfl hfile) hf hrow⟩

theorem Call.reply_next (s : Scan) (e : Engine) :
    (Call.next s).reply e = .row (s.next.run e).1.1 (s.next.run e).1.2 := rfl

theorem Engine.NamedRun.readsByName {e : Engine} (h : NamedRun e) : e.ReadsByName := by
  have he := h.reachable.consistent
  have hn := h.named
  refine ⟨fun txn p access keep => Call.settles_getPage_answers he hn txn p access keep,
    fun table s t s' hfile hreply => ?_, fun p page hcopy => ?_⟩
  · obtain ⟨hgiven, -⟩ := Reply.row.inj (Call.reply_next s e ▸ hreply)
    exact Scan.settles_next_answers he hn hfile t hgiven
  · obtain ⟨hwf, -⟩ := he.fits p page hcopy
    rw [← he.sound.id_of_copy hcopy]
    exact (hn p page hcopy).reload hwf

/-- **What is read by name, before and after a page was written and read again.** A tuple that was inserted goes by
the names that it came with, and by those of the page once this was written and read. If every tuple that is inserted
goes by the names of its table, all that is read by name is said by the stored rows and the schema of the table, so it
makes no difference which pages were evicted and loaded again. -/
theorem reading_by_name {e : Engine} {id : PageId} {s : Schema} {p p' : HeapPage} {t stored : Tuple} (he : e.NamedRun)
    (hp : HeapPage.Reached id s p) (hinsert : p.insert t = .ok (stored, p')) :
    (∃ slot q t', p'.tuple? slot = some stored ∧ HeapPage.decode id s p'.block.bytes = .ok q ∧
      q.tuple? slot = some t' ∧ t'.recordId = stored.recordId ∧
      ∀ name, stored.valueNamed? name = t.valueBy t.schema name ∧ t'.valueNamed? name = t.valueBy s name) ∧
    e.ReadsByName := by
  obtain ⟨hwf, rfl, rfl⟩ := hp.wellFormed
  exact ⟨hwf.names_after_insert hinsert, he.readsByName⟩

namespace Sample

/-- Pairs of numbers. -/
def pairs : Schema := ⟨[⟨"a", .integer⟩, ⟨"b", .integer⟩]⟩

/-- A pair that names its columns the other way round. -/
def swapped : Tuple := ⟨⟨[⟨"b", .integer⟩, ⟨"a", .integer⟩]⟩, [.integer 1, .integer 2], none, by decide⟩

theorem reached_pairs : HeapPage.Reached ⟨1, 0⟩ pairs (.blank ⟨1, 0⟩ pairs) :=
  .empty (HeapPage.empty_eq_ok_iff.2 ⟨by decide, rfl⟩)

/-- A page of pairs takes the swapped one. -/
theorem exists_insert_swapped : ∃ stored p', (HeapPage.blank ⟨1, 0⟩ pairs).insert swapped = .ok (stored, p') := by
  cases h : (HeapPage.blank ⟨1, 0⟩ pairs).insert swapped with
  | ok result => exact ⟨_, _, rfl⟩
  | error cause =>
    obtain ⟨hp, -⟩ := reached_pairs.wellFormed
    obtain ⟨htypes, -⟩ | ⟨-, hfull, -⟩ := hp.insert_eq_error_iff.1 h
    · exact absurd htypes (by decide)
    · exact absurd ⟨by decide +kernel, by decide +kernel⟩ (hfull 0)

theorem namedRun_roomyWord : NamedRun roomyWord := by
  refine .event (.call insertApple)
    (.event (.register "words" "words" schema) (.start .blank { poolPages := 2 }) ⟨newPath_start _ _ _, nofun⟩)
    ⟨trivial, ?_⟩
  rintro _ ⟨⟩ _ _ _ _ ⟨⟩ f hf
  have hwords : ((Op.addTable "words" "words" schema).run.run (.start .blank { poolPages := 2 })).2.file? 0 =
      some ⟨0, schema, ["words"], 0, 0, 0⟩ := by decide +kernel
  obtain rfl := Option.some.inj (hwords.symm.trans hf)
  exact fun name => rfl

end Sample

/-- Under a name the swapped pair gives its second value, and its first once the page was written and read. A scan
that comes to the apple gives it by its name. -/
theorem reading_by_name_of_swapped :
    ∃ (stored t' : Tuple) (p' q : HeapPage),
      (HeapPage.blank ⟨1, 0⟩ Sample.pairs).insert Sample.swapped = .ok (stored, p') ∧
      HeapPage.decode ⟨1, 0⟩ Sample.pairs p'.block.bytes = .ok q ∧ (∃ slot, q.tuple? slot = some t') ∧
      stored.valueNamed? "a" = some (.integer 2) ∧ t'.valueNamed? "a" = some (.integer 1) ∧
      ∃ t s', (Call.next (Scan.ofFile 0 1).opened).reply Sample.roomyWord = .row (.ok t) s' ∧
        t.valueNamed? "word" = some (.string "apple") := by
  obtain ⟨stored, p', hinsert⟩ := Sample.exists_insert_swapped
  obtain ⟨⟨slot, q, t', -, hq, ht', -, hnames⟩, hreads⟩ :=
    reading_by_name Sample.namedRun_roomyWord Sample.reached_pairs hinsert
  obtain ⟨hbefore, hafter⟩ := hnames "a"
  refine ⟨stored, t', p', q, hinsert, hq, ⟨slot, ht'⟩, hbefore.trans (by decide), hafter.trans (by decide), ?_⟩
  have hgiven : ((Scan.ofFile 0 1).opened.next.run Sample.roomyWord).1.1 =
      .ok (Sample.apple.withRecordId (some ⟨⟨0, 0⟩, 0⟩)) := by decide +kernel
  have hreply : (Call.next (Scan.ofFile 0 1).opened).reply Sample.roomyWord =
      .row (.ok (Sample.apple.withRecordId (some ⟨⟨0, 0⟩, 0⟩)))
        ((Scan.ofFile 0 1).opened.next.run Sample.roomyWord).1.2 := by
    rw [Call.reply_next, hgiven]
  have hfile : Sample.roomyWord.catalog.file 0 = .ok 0 := by decide +kernel
  obtain ⟨r, hr, -, hanswer⟩ := hreads.scanned 0 _ _ _ hfile hreply
  obtain rfl : ⟨⟨0, 0⟩, 0⟩ = r := Option.some.inj hr
  exact ⟨_, _, hreply, (hanswer "word").trans (by decide +kernel)⟩

/-- Not every tuple that a page takes answers by name as before once the page was written and read: the swapped pair
gives its second value under a name, and then its first. -/
theorem names_lost_by_reload :
    ¬ ∀ {id : PageId} {s : Schema} {p p' q : HeapPage} {t stored t' : Tuple} {slot : Nat}, HeapPage.Reached id s p →
      p.insert t = .ok (stored, p') → p'.tuple? slot = some stored →
      HeapPage.decode id s p'.block.bytes = .ok q → q.tuple? slot = some t' →
      ∀ name, t'.valueNamed? name = stored.valueNamed? name := by
  intro hclaim
  obtain ⟨stored, p', hinsert⟩ := Sample.exists_insert_swapped
  obtain ⟨hp, -⟩ := Sample.reached_pairs.wellFormed
  obtain ⟨slot, q, t', hstored, hq, ht', -, hnames⟩ := hp.names_after_insert hinsert
  obtain ⟨hbefore, hafter⟩ := hnames "a"
  have hsame := hclaim Sample.reached_pairs hinsert hstored hq ht' "a"
  rw [hbefore, hafter] at hsame
  exact absurd hsame (by decide)

end HeapStore
