import HeapStore.Engine.Rows
import HeapStore.Proofs.Engine.Pages
import HeapStore.Proofs.Page.Slots

/-!
# What an insert and a delete change

An insert that succeeds first finds a page for the tuple, or appends one (`Engine.Prepared`), and then
fills one slot of this page; a delete that succeeds frees one slot. `Engine.Writes` says that one row of
one page is replaced, that nothing else is, that the transaction holds the page exclusively, and that the
page is marked as changed by it. The two main lemmas are `Op.settles_insert` and `Op.ends_delete`; calls
that fail change no row.

The search of `insertFirstFit` looks at one page after the other; `tryPage` is what it does on one. It passes
a page only if this is full, so the page it comes to is the first one that is not (`Engine.Chosen`), and a page
is appended only if all are full (`Engine.Extends`).
-/

namespace HeapStore

namespace Engine

variable {txn : TxnId} {p q : PageId} {e e₁ e' : Engine}

/-- Nothing changed, unless the file of `p` got this page, without tuples. -/
def Prepared (txn : TxnId) (p : PageId) (e e' : Engine) : Prop :=
  Quiet txn e e' ∨ Grows p e e' ∧ e.locks.Gains txn e'.locks

theorem Prepared.consistent (h : Prepared txn p e e') : e'.Consistent :=
  h.elim (·.consistent) (·.1.consistent)

theorem Prepared.catalog (h : Prepared txn p e e') : e'.catalog = e.catalog :=
  h.elim (·.catalog) (·.1.catalog)

theorem Prepared.locks (h : Prepared txn p e e') : e.locks.Gains txn e'.locks :=
  h.elim (·.locks) (·.2)

theorem Prepared.dirty (h : Prepared txn p e e') : ∀ q page, e'.cache.copy? q = some page →
    page.dirtiedBy ≠ none → e.cache.copy? q = some page :=
  h.elim (·.dirty) (·.1.dirty)

theorem Prepared.content_of_ne (h : Prepared txn p e e') (hq : q ≠ p) : e'.content q = e.content q :=
  h.elim (·.content q) (·.1.content q hq)

/-! ### The page that an insert comes to -/

/-- Is this a slot of the page that holds no tuple? -/
def IsFree (e : Engine) (p : PageId) (slot : Nat) : Prop :=
  ∃ rows, e.content p = .ok rows ∧ rows[slot]? = some none

/-- The page can be read, and every slot of it holds a tuple. -/
def Full (e : Engine) (p : PageId) : Prop := ∃ rows, e.content p = .ok rows ∧ none ∉ rows

theorem isFree_congr (h : e'.content p = e.content p) (slot : Nat) : e'.IsFree p slot ↔ e.IsFree p slot := by
  rw [IsFree, IsFree, h]

theorem full_congr (h : e'.content p = e.content p) : e'.Full p ↔ e.Full p := by rw [Full, Full, h]

theorem Full.not_isFree (h : e.Full p) (slot : Nat) : ¬ e.IsFree p slot := by
  obtain ⟨rows, hrows, hnone⟩ := h
  rintro ⟨rows', hrows', hfree⟩
  obtain rfl := Except.ok.inj (hrows.symm.trans hrows')
  exact hnone (List.mem_of_getElem? hfree)

theorem isFree_of_copy {page : HeapPage} (hcopy : e.cache.copy? p = some page) {slot : Nat} :
    e.IsFree p slot ↔ page.IsFree slot := by
  rw [IsFree, content_of_copy hcopy, HeapPage.isFree_iff_getElem?_rows]
  simp

theorem full_of_copy {page : HeapPage} (hcopy : e.cache.copy? p = some page) (hfull : ∀ i, ¬ page.IsFree i) :
    e.Full p := by
  refine ⟨page.rows, content_of_copy hcopy, fun hnone => ?_⟩
  obtain ⟨i, hi⟩ := List.mem_iff_getElem?.1 hnone
  exact hfull i (HeapPage.isFree_iff_getElem?_rows.2 hi)

/-- The numbers of a table's pages, in their order. -/
def pages (e : Engine) (t : TableId) : List Nat :=
  match e.file? t with
  | some f => List.range f.numPages
  | none => []

/-- All pages of the list are full, and the table's file got one page more, without tuples. -/
structure Extends (txn : TxnId) (table : TableId) (pages : List Nat) (p : PageId) (e e' : Engine) : Prop where
  full : ∀ n ∈ pages, e.Full ⟨table, n⟩
  next : ∃ f, e.file? table = some f ∧ p = f.nextPage
  grows : Grows p e e'
  locks : e.locks.Gains txn e'.locks

/-- The page is one of the list, with only full ones before it, or it was appended because all are full. -/
def Chosen (txn : TxnId) (table : TableId) (pages : List Nat) (p : PageId) (e e' : Engine) : Prop :=
  (∃ before n after, pages = before ++ n :: after ∧ p = ⟨table, n⟩ ∧ (∀ m ∈ before, e.Full ⟨table, m⟩) ∧
    Quiet txn e e') ∨ Extends txn table pages p e e'

/-- Nothing changed, unless all pages of the list are full and the table's file got one page more. -/
def Attempted (txn : TxnId) (table : TableId) (pages : List Nat) (e e' : Engine) : Prop :=
  Quiet txn e e' ∨ ∃ p, Extends txn table pages p e e'

section

variable {table : TableId} {pages : List Nat} {n : Nat}

theorem Extends.prepared (h : Extends txn table pages p e e') : Prepared txn p e e' := Or.inr ⟨h.grows, h.locks⟩

theorem Chosen.prepared (h : Chosen txn table pages p e e') : Prepared txn p e e' := by
  obtain ⟨before, n, after, -, -, -, hquiet⟩ | hextends := h
  · exact Or.inl hquiet
  · exact hextends.prepared

theorem Attempted.exists_prepared (h : Attempted txn table pages e e') : ∃ p, Prepared txn p e e' := by
  obtain hquiet | ⟨p, hextends⟩ := h
  · exact ⟨⟨table, 0⟩, Or.inl hquiet⟩
  · exact ⟨p, hextends.prepared⟩

theorem Extends.trans_quiet (h : Extends txn table pages p e e₁) (h' : Quiet txn e₁ e') :
    Extends txn table pages p e e' :=
  ⟨h.full, h.next, h.grows.trans_keeps h'.toKeeps, h.locks.trans h'.locks⟩

theorem Extends.cons (hfull : e.Full ⟨table, n⟩) (hquiet : Quiet txn e e₁) (h : Extends txn table pages p e₁ e') :
    Extends txn table (n :: pages) p e e' := by
  obtain ⟨f, hf, hp⟩ := h.next
  obtain ⟨f', hf', heq⟩ := hquiet.exists_file' hf
  obtain ⟨htable, -, -, hpages⟩ := HeapFile.uncounted_eq_iff.1 heq
  refine ⟨fun m hm => ?_, ⟨f', hf', ?_⟩, hquiet.toKeeps.trans_grows h.grows, hquiet.locks.trans h.locks⟩
  · obtain rfl | hrest := List.mem_cons.1 hm
    · exact hfull
    · exact (full_congr (hquiet.content _)).1 (h.full m hrest)
  · rw [hp, HeapFile.nextPage, HeapFile.nextPage, htable, hpages]

theorem Chosen.cons (hfull : e.Full ⟨table, n⟩) (hquiet : Quiet txn e e₁) (h : Chosen txn table pages p e₁ e') :
    Chosen txn table (n :: pages) p e e' := by
  obtain ⟨before, k, after, rfl, rfl, hbefore, hquiet'⟩ | hextends := h
  · refine Or.inl ⟨n :: before, k, after, rfl, rfl, fun m hm => ?_, hquiet.trans hquiet'⟩
    obtain rfl | hrest := List.mem_cons.1 hm
    · exact hfull
    · exact (full_congr (hquiet.content _)).1 (hbefore m hrest)
  · exact Or.inr (hextends.cons hfull hquiet)

theorem Attempted.cons (hfull : e.Full ⟨table, n⟩) (hquiet : Quiet txn e e₁) (h : Attempted txn table pages e₁ e') :
    Attempted txn table (n :: pages) e e' := by
  obtain hquiet' | ⟨p, hextends⟩ := h
  · exact Or.inl (hquiet.trans hquiet')
  · exact Or.inr ⟨p, hextends.cons hfull hquiet⟩

end

/-! ### What is written -/

/-- The row `old` of a page is replaced by `row` and nothing else, by a transaction that holds the page
exclusively and now is the last to have changed it. -/
structure Writes (txn : TxnId) (p : PageId) (slot : Nat) (old row : Option (List Value)) (e e' : Engine) :
    Prop where
  owned : e.locks.mode? p txn = some .exclusive
  locks : e'.locks = e.locks
  catalog : e'.catalog = e.catalog
  consistent : e'.Consistent
  rows : ∃ rows, e.content p = .ok rows ∧ rows[slot]? = some old ∧ e'.content p = .ok (rows.set slot row)
  others : ∀ q, q ≠ p → e'.content q = e.content q
  mark : ∃ page, e'.cache.copy? p = some page ∧ page.dirtiedBy = some txn
  copies : ∀ q, q ≠ p → e'.cache.copy? q = e.cache.copy? q
  lengths : e.SameLengths e'

theorem Writes.of_copies {slot : Nat} {old row : Option (List Value)} (h : Writes txn p slot old row e e')
    {c : Cache} (hc : c.Sound) (hcopies : ∀ q, c.copy? q = e'.cache.copy? q) :
    Writes txn p slot old row e { e' with cache := c } := by
  have hkeeps := h.consistent.keeps_copies hc hcopies
  obtain ⟨rows, hbefore, hold, hafter⟩ := h.rows
  obtain ⟨page, hcopy, hmark⟩ := h.mark
  exact ⟨h.owned, h.locks, h.catalog, hkeeps.consistent,
    ⟨rows, hbefore, hold, (hkeeps.content p).trans hafter⟩,
    fun q hq => (hkeeps.content q).trans (h.others q hq), ⟨page, (hcopies p).trans hcopy, hmark⟩,
    fun q hq => (hcopies q).trans (h.copies q hq), h.lengths.trans hkeeps.sameLengths⟩

theorem Consistent.writes_setPage (he : e.Consistent) {h : Handle} (hh : e.cache.handle? p = some h)
    {page page' : HeapPage} (hcopy : e.cache.copy? p = some page)
    (howned : e.locks.mode? p txn = some .exclusive) {slot : Nat} {old row : Option (List Value)}
    (hold : page.rows[slot]? = some old) (hrows : page'.rows = page.rows.set slot row)
    (hwf : page'.WellFormed) (hid : page'.id = page.id) (hschema : page'.schema = page.schema) :
    Writes txn p slot old row e { e with cache := e.cache.setPage h (page'.markDirty txn) } := by
  have hp : page'.id = p := hid.trans (he.sound.id_of_copy hcopy)
  have hchanges := he.changes_setPage hh hcopy (hwf.markDirty txn) hp hschema (by simp [HeapPage.markDirty])
  refine ⟨howned, rfl, hchanges.catalog, hchanges.consistent, ⟨page.rows, content_of_copy hcopy, hold, ?_⟩,
    fun q hq => ?_, ⟨page'.markDirty txn, ?_, rfl⟩, fun q hq => ?_, ⟨fun _ => rfl, fun _ => rfl⟩⟩
  · rw [hchanges.content, if_pos rfl, HeapPage.rows_markDirty, hrows]
  · rw [hchanges.content, if_neg hq]
  · rw [hchanges.copies, if_pos rfl]
  · rw [hchanges.copies, if_neg hq]

end Engine

namespace Op

open Engine

variable {e e' : Engine} {txn : TxnId} {p : PageId} {t : Tuple} {table : TableId} {entry : TableEntry}

/-! ### Inserting -/

/-- The tuple stands on the cached copy of `p`, which is not yet marked as changed. -/
structure Placed (txn : TxnId) (p : PageId) (t : Tuple) (result : Tuple × Handle) (e e' : Engine) : Prop where
  consistent : e.Consistent
  owned : e.locks.mode? p txn = some .exclusive
  handle : e.cache.handle? p = some result.2
  inserted : ∃ page page', e.cache.copy? p = some page ∧ page.insert t = .ok (result.1, page') ∧
    e' = { e with cache := e.cache.setPage result.2 page' }

/-- Who gets a page for writing holds it exclusively. -/
theorem ends_getPage_readWrite (he : e.Consistent) (txn : TxnId) (p : PageId) :
    Ends (getPage txn p .readWrite) e
      (fun h e' => Quiet txn e e' ∧ e'.locks.mode? p txn = some .exclusive ∧ e'.cache.handle? p = some h ∧
        ∃ page, e'.cache.page? h = some page ∧ e'.cache.copy? p = some page)
      fun _ e' => Quiet txn e e' := by
  refine (ends_getPage he txn p .readWrite).mono ?_ fun _ _ hquiet => hquiet
  rintro h e' ⟨hquiet, hhandle, held, hheld, hmode⟩
  obtain ⟨page, hpage, hcopy, -⟩ := hquiet.consistent.sound.exists_copy hhandle
  have hexclusive : held = .exclusive := hmode rfl
  exact ⟨hquiet, hexclusive ▸ hheld, hhandle, page, hpage, hcopy⟩

theorem ends_insertInto (he : e.Consistent) (txn : TxnId) (p : PageId) (t : Tuple) :
    Ends (insertInto txn p t) e (fun result e' => ∃ e₁, Quiet txn e e₁ ∧ Placed txn p t result e₁ e')
      fun _ e' => Quiet txn e e' := by
  unfold insertInto
  rw [ends_bind]
  refine (ends_getPage_readWrite he txn p).mono ?_ fun _ _ hquiet => hquiet
  rintro h e₁ ⟨hquiet, howned, hhandle, page, hpage, hcopy⟩
  unfold insertOn setPage modifyCache
  simp only [ends_bind, ends_page hpage, ends_liftExcept, ends_modify, ends_pure]
  refine ⟨fun result hinsert => ?_, fun _ _ => hquiet⟩
  exact ⟨e₁, hquiet, hquiet.consistent, howned, hhandle, page, result.2, hcopy, hinsert, rfl⟩

/-- What the search does on one page: either the tuple goes onto it, or the search goes on. -/
def tryPage (txn : TxnId) (t : Tuple) (p : PageId) : Op (Option (Tuple × Handle)) := do
  let heldBefore ← holdsLock txn p
  if ← probe txn p then
    let h ← getPage txn p .readWrite
    match (← page h).insert t with
    | .ok (stored, page) =>
      setPage h page
      return some (stored, h)
    | .error (.pageFull _) => return none
    | .error cause => throw cause
  else
    unless heldBefore do releasePage txn p
    return none

theorem insertFirstFit_cons (fd : Descriptor) (txn : TxnId) (t : Tuple) (table : TableId) (n : Nat)
    (rest : List Nat) : insertFirstFit fd txn t table (n :: rest) = (do
      match ← tryPage txn t ⟨table, n⟩ with
      | some placed => return placed
      | none => insertFirstFit fd txn t table rest) := by
  rw [insertFirstFit, tryPage]
  simp only [bind_assoc]
  congr
  funext heldBefore
  congr
  funext room
  cases room with
  | false => cases heldBefore <;> simp
  | true =>
    simp only [if_true, bind_assoc]
    congr
    funext h
    congr
    funext page
    cases page.insert t with
    | ok result => simp
    | error cause => cases cause <;> simp

theorem ends_probe (he : e.Consistent) (txn : TxnId) (p : PageId) :
    Ends (probe txn p) e (fun room e' => Quiet txn e e' ∧ (room = false → e.Full p))
      fun _ e' => Quiet txn e e' := by
  unfold probe
  rw [ends_bind]
  refine (ends_getPage he txn p .readOnly).mono (fun h e₁ hget => ?_) fun _ _ hquiet => hquiet
  obtain ⟨hquiet, hhandle, -⟩ := hget
  obtain ⟨page, hpage, hcopy, -⟩ := hquiet.consistent.sound.exists_copy hhandle
  obtain ⟨hwf, -⟩ := hquiet.consistent.fits _ page hcopy
  rw [ends_bind, ends_page hpage, ends_pure]
  refine ⟨hquiet, fun hroom => (full_congr (hquiet.content p)).1 (full_of_copy hcopy fun i hfree => ?_)⟩
  exact absurd (hwf.numFree_pos_iff.2 ⟨i, hfree⟩) (of_decide_eq_false hroom)

theorem ends_tryPage (he : e.Consistent) (txn : TxnId) (t : Tuple) (p : PageId) :
    Ends (tryPage txn t p) e
      (fun result e' => match result with
        | some placed => ∃ e₁, Quiet txn e e₁ ∧ Placed txn p t placed e₁ e'
        | none => Quiet txn e e' ∧ e.Full p)
      fun _ e' => Quiet txn e e' := by
  unfold tryPage holdsLock
  simp only [ends_bind, ends_get, ends_pure]
  refine (ends_probe he txn p).mono (fun room e₁ h => ?_) fun _ _ hquiet => hquiet
  obtain ⟨hprobe, hfull⟩ := h
  cases room with
  | false =>
    cases hbefore : e.locks.holds p txn with
    | true => exact ⟨hprobe, hfull rfl⟩
    | false => exact ⟨hprobe.release hbefore, hfull rfl⟩
  | true =>
    simp only [if_true, ends_bind]
    refine (ends_getPage_readWrite hprobe.consistent txn p).mono ?_ fun _ _ hquiet => hprobe.trans hquiet
    rintro h e₂ ⟨hquiet, howned, hhandle, page, hpage, hcopy⟩
    rw [ends_page hpage]
    have hdone := hprobe.trans hquiet
    cases hinsert : page.insert t with
    | ok result =>
      exact ⟨e₂, hdone, hquiet.consistent, howned, hhandle, page, result.2, hcopy, hinsert, rfl⟩
    | error cause =>
      obtain ⟨hwf, -⟩ := hquiet.consistent.fits _ page hcopy
      obtain ⟨-, rfl⟩ | ⟨-, hnone, rfl⟩ := hwf.insert_eq_error_iff.1 hinsert
      · exact hdone
      · exact ⟨hdone, (full_congr (hdone.content p)).1 (full_of_copy hcopy hnone)⟩

/-- The search places the tuple, on the first page that has room or on a new one. If it fails it changes nothing
but that it may have appended a page. -/
theorem ends_insertFirstFit (he : e.Consistent) (ht : e.catalog.byId[table]? = some entry) (txn : TxnId)
    (t : Tuple) (pages : List Nat) :
    Ends (insertFirstFit entry.file txn t table pages) e
      (fun result e' => ∃ p e₁, Chosen txn table pages p e e₁ ∧ Placed txn p t result e₁ e')
      fun _ e' => Attempted txn table pages e e' := by
  induction pages generalizing e with
  | nil =>
    obtain ⟨f, hf, -⟩ := he.opened table entry ht
    have hgrows := he.grows_append ht hf
    have hextends : Extends txn table [] f.nextPage e (e.appended entry.file f) :=
      ⟨by simp, ⟨f, (file?_of_entry ht).trans hf, rfl⟩, hgrows, .refl txn e.locks⟩
    unfold insertFirstFit
    rw [ends_bind, ends_onFiles, FileOp.ends_allocate hf]
    apply (ends_insertInto hgrows.consistent txn f.nextPage t).mono
    · rintro result e' ⟨e₁, hquiet, hplaced⟩
      exact ⟨f.nextPage, e₁, Or.inr (hextends.trans_quiet hquiet), hplaced⟩
    · exact fun _ e' hquiet => Or.inr ⟨f.nextPage, hextends.trans_quiet hquiet⟩
  | cons n rest ih =>
    rw [insertFirstFit_cons, ends_bind]
    refine (ends_tryPage he txn t ⟨table, n⟩).mono (fun result e₁ htry => ?_) fun _ _ hquiet => Or.inl hquiet
    cases result with
    | some placed =>
      obtain ⟨e₂, hquiet, hplaced⟩ := htry
      exact ⟨⟨table, n⟩, e₂, Or.inl ⟨[], n, rest, rfl, rfl, by simp, hquiet⟩, hplaced⟩
    | none =>
      obtain ⟨hquiet, hfull⟩ : Quiet txn e e₁ ∧ e.Full ⟨table, n⟩ := htry
      apply (ih hquiet.consistent (hquiet.catalog ▸ ht)).mono
      · rintro placed e' ⟨p, e₂, hchosen, hplaced⟩
        exact ⟨p, e₂, hchosen.cons hfull hquiet, hplaced⟩
      · exact fun _ e' hattempted => hattempted.cons hfull hquiet

theorem ends_insertIntoFile (he : e.Consistent) (ht : e.catalog.byId[table]? = some entry) (txn : TxnId)
    (t : Tuple) :
    Ends (insertIntoFile entry.file txn t) e
      (fun result e' => ∃ p e₁, Chosen txn table (e.pages table) p e e₁ ∧ Placed txn p t result e₁ e')
      fun _ e' => Attempted txn table (e.pages table) e e' := by
  obtain ⟨f, hf, htable, -⟩ := he.opened table entry ht
  have hpages : e.pages table = List.range f.numPages := by rw [pages, file?_of_entry ht, hf]
  unfold insertIntoFile
  rw [ends_bind, ends_onFiles, FileOp.ends_file hf, htable, hpages]
  split
  · exact ends_insertFirstFit he ht txn t (List.range f.numPages)
  · exact Or.inl (he.quiet_refl txn)

theorem ends_markDirty_adopt {result : Tuple × Handle} (h : Placed txn p t result e e') :
    Ends (do markDirty result.2 txn; adopt result.2; return result.2) e'
      (fun _ e'' => ∃ slot, slot < 65536 ∧ result.1 = t.withRecordId (some (HeapPage.recordId p slot)) ∧
        IsLeast {i | e.IsFree p i} slot ∧ Writes txn p slot none (some t.values) e e'')
      fun _ _ => False := by
  obtain ⟨he, howned, hhandle, page, page', hcopy, hinsert, rfl⟩ := h
  obtain ⟨hwf, -⟩ := he.fits p page hcopy
  have hid := he.sound.id_of_copy hcopy
  obtain ⟨slot, hslot, hstored, hfree, hrows, hwf', hid', hschema⟩ := hwf.insert hinsert
  have hsmall : slot < 65536 := by
    have hlt := slotsPerPage_lt page.schema.width
    rw [hwf.length_slots] at hslot
    omega
  have hleast : IsLeast {i | e.IsFree p i} slot := by
    simp only [isFree_of_copy hcopy]
    exact hwf.isLeast_of_insert hinsert hstored hsmall
  have hpage : ({ e with cache := e.cache.setPage result.2 page' } : Engine).cache.page? result.2 = some page' :=
    he.sound.page?_setPage hhandle page'
  have htarget : result.2.page = p := (Cache.handle?_eq_some_iff.1 hhandle).2
  unfold markDirty adopt setPage modifyCache
  simp only [ends_bind, ends_page hpage, ends_modify, ends_get, ends_pure, Cache.setPage_setPage,
    Cache.handle?_setPage, htarget, hhandle, if_true]
  rw [hid] at hstored
  have hwrites := he.writes_setPage hhandle hcopy howned hfree hrows hwf' hid' hschema
  exact ⟨slot, hsmall, hstored, hleast, hwrites.of_copies (hwrites.consistent.sound.touch p) fun q => rfl⟩

/-- An insert that succeeds fills the lowest free slot of a page, the slot that the tuple's record id names, with
the tuple's values; one that fails gives the caller's tuple back as it was. -/
theorem settles_insert (he : e.Consistent) (txn : TxnId) (table : TableId) (t : Tuple) :
    Settles (insert txn table t) e fun result e' => match result.outcome with
      | .ok _ => ∃ p slot e₁, slot < 65536 ∧
          result.tuple = t.withRecordId (some (HeapPage.recordId p slot)) ∧
          Chosen txn table (e.pages table) p e e₁ ∧ IsLeast {i | e₁.IsFree p i} slot ∧
          Writes txn p slot none (some t.values) e₁ e'
      | .error _ => result.tuple = t ∧ Attempted txn table (e.pages table) e e' := by
  unfold insert
  rw [settles_bind, settles_run, ends_bind]
  cases ht : e.catalog.byId[table]? with
  | none =>
    rw [ends_tableFile_of_none ht]
    exact ⟨rfl, Or.inl (he.quiet_refl txn)⟩
  | some entry =>
    rw [ends_tableFile ht]
    refine (ends_insertIntoFile he ht txn t).mono (fun result e₂ h => ?_) fun cause e' h => ⟨rfl, h⟩
    obtain ⟨p, e₁, hchosen, hplaced⟩ := h
    dsimp only
    rw [settles_bind, settles_run]
    apply (ends_markDirty_adopt hplaced).mono_ok
    intro _ e' h
    obtain ⟨slot, hsmall, hstored, hleast, hwrites⟩ := h
    exact ⟨p, slot, e₁, hsmall, hstored, hchosen, hleast, hwrites⟩

/-! ### Deleting -/

/-- A delete that succeeds frees the slot that the record id names. -/
theorem ends_delete (he : e.Consistent) (txn : TxnId) (r : Option RecordId) :
    Ends (delete txn r) e
      (fun _ e' => ∃ rid values e₁, r = some rid ∧ Quiet txn e e₁ ∧
        Writes txn rid.page rid.slot.toNat (some values) none e₁ e')
      fun _ e' => Quiet txn e e' := by
  have hnothing : Quiet txn e e := he.quiet_refl txn
  unfold delete
  cases r with
  | none => exact hnothing
  | some rid =>
    dsimp only
    rw [ends_bind, ends_get]
    split
    · rw [ends_bind]
      cases ht : e.catalog.byId[rid.page.table]? with
      | none =>
        rw [ends_tableFile_of_none ht]
        exact hnothing
      | some entry =>
        obtain ⟨f, hf, htable, -⟩ := he.opened _ entry ht
        unfold deleteFromFile
        rw [ends_tableFile ht]
        simp only [ends_bind, ends_onFiles, FileOp.ends_file hf, htable, if_true]
        refine (ends_getPage_readWrite he txn rid.page).mono ?_ fun _ _ hquiet => hquiet
        rintro h e₁ ⟨hquiet, howned, hhandle, page, hpage, hcopy⟩
        have he₁ := hquiet.consistent
        rw [ends_page hpage, ends_liftExcept]
        refine ⟨fun page' hdelete => ?_, fun _ _ => hquiet⟩
        obtain ⟨hwf, -⟩ := he₁.fits _ page hcopy
        obtain ⟨rid', values, hrid, -, hused, hrows, hwf', hid', hschema⟩ := hwf.delete hdelete
        obtain rfl := Option.some.inj hrid
        have hpage' : ({ e₁ with cache := e₁.cache.setPage h page' } : Engine).cache.page? h = some page' :=
          he₁.sound.page?_setPage hhandle page'
        unfold markDirty setPage modifyCache
        simp only [ends_bind, ends_modify, ends_pure, ends_page hpage', Cache.setPage_setPage]
        exact ⟨rid, values, e₁, rfl, hquiet,
          he₁.writes_setPage hhandle hcopy howned hused hrows hwf' hid' hschema⟩
    · exact hnothing

end Op

end HeapStore
