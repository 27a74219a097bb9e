import HeapStore.Proofs.Engine.Rows
import HeapStore.Proofs.Engine.Scans
import HeapStore.Proofs.Engine.Twins

/-!
# Rows and scans of two engines side by side

An insert puts the tuple into the same slot of the same page of both, a delete frees the same slot, and a
scan finds the same record. What stands between the steps of an insert is not quite twins, as the page that
was changed is not marked as changed yet (`Op.PutBoth`).

A delete needs its page to be cached on both sides. So it is after a `getPage` (`Op.together_getPage`), and
after a scan has given a record of the page (`Scan.both_next`).
-/

namespace HeapStore

namespace Op

open Engine

variable {e e' : Engine} {p : PageId}

/-! ### Files -/

theorem together_tableFile (h : Twins e e') (t : TableId) :
    Together (tableFile t) (tableFile t) e e' fun fd fd' s s' =>
      s = e ∧ s' = e' ∧ fd' = fd ∧ ∃ entry : TableEntry, e.catalog.byId[t]? = some entry ∧ entry.file = fd := by
  unfold tableFile Catalog.file Catalog.entry
  rw [together_get_bind, h.agrees.catalog]
  cases ht : e.catalog.byId[t]? with
  | none => exact ⟨rfl, by simp, h⟩
  | some entry => exact ⟨rfl, rfl, rfl, entry, rfl, rfl⟩

theorem together_file (h : Twins e e') {fd : Descriptor} {f : HeapFile} (hf : e.store.file? fd = some f) :
    Together (onFiles (FileOp.file fd)) (onFiles (FileOp.file fd)) e e' fun g g' s s' =>
      s = e ∧ s' = e' ∧ g = f ∧ g'.uncounted = f.uncounted := by
  obtain ⟨f', hf', heq⟩ := h.exists_file hf
  have hl : Ends (onFiles (FileOp.file fd)) e (fun g s => g = f ∧ s = e) fun _ _ => False := by
    rw [ends_onFiles, FileOp.ends_file hf]
    exact ⟨rfl, rfl⟩
  have hr : Ends (onFiles (FileOp.file fd)) e' (fun g s => g = f' ∧ s = e') fun _ _ => False := by
    rw [ends_onFiles, FileOp.ends_file hf']
    exact ⟨rfl, rfl⟩
  refine .of_ends_ok hl hr ?_
  rintro g g' s s' ⟨rfl, rfl⟩ ⟨rfl, rfl⟩
  exact ⟨rfl, rfl, rfl, heq⟩

theorem together_allocate (h : Twins e e') {table : TableId} {entry : TableEntry}
    (ht : e.catalog.byId[table]? = some entry) :
    Together (onFiles (FileOp.allocate entry.file)) (onFiles (FileOp.allocate entry.file)) e e'
      fun p p' s s' => p' = p ∧ Twins s s' := by
  obtain ⟨f, hf, -⟩ := h.left.opened table entry ht
  obtain ⟨f', hf', heq⟩ := h.exists_file hf
  obtain ⟨htable, -, -, hpages⟩ := HeapFile.uncounted_eq_iff.1 heq
  have hl : Ends (onFiles (FileOp.allocate entry.file)) e
      (fun p s => p = f.nextPage ∧ s = e.appended entry.file f) fun _ _ => False := by
    rw [ends_onFiles, FileOp.ends_allocate hf]
    exact ⟨rfl, rfl⟩
  have hr : Ends (onFiles (FileOp.allocate entry.file)) e'
      (fun p s => p = f'.nextPage ∧ s = e'.appended entry.file f') fun _ _ => False := by
    rw [ends_onFiles, FileOp.ends_allocate hf']
    exact ⟨rfl, rfl⟩
  refine .of_ends_ok hl hr ?_
  rintro p p' s s' ⟨rfl, rfl⟩ ⟨rfl, rfl⟩
  exact ⟨by rw [HeapFile.nextPage, HeapFile.nextPage, htable, hpages], h.appended ht hf hf'⟩

/-! ### Inserting -/

/-- The tuple was put on the page of the object, which is not yet marked as changed. -/
structure Put (t : Tuple) (page new : HeapPage) (r : Tuple × Handle) (d s : Engine) : Prop where
  inserted : page.insert t = .ok (r.1, new)
  state : s = { d with cache := d.cache.setPage r.2 new }

/-- The tuple was put on the same page of twins. -/
def PutBoth (t : Tuple) (r r' : Tuple × Handle) (s s' : Engine) : Prop :=
  r'.1 = r.1 ∧ ∃ p d d' page page' new new', Twins d d' ∧ Copies p r.2 r'.2 page page' d d' ∧
    new.view = new'.view ∧ Put t page new r d s ∧ Put t page' new' r' d' s'

/-- Copies that look alike take the tuple alike, or refuse it for the same cause. -/
theorem putBoth_or_refused (htwins : Twins e e') {h h' : Handle} {page page' : HeapPage}
    (hcopies : Copies p h h' page page' e e') (t : Tuple) :
    (∃ stored new new', page.insert t = .ok (stored, new) ∧ page'.insert t = .ok (stored, new') ∧
        PutBoth t (stored, h) (stored, h') { e with cache := e.cache.setPage h new }
          { e' with cache := e'.cache.setPage h' new' }) ∨
      ∃ cause, page.insert t = .error cause ∧ page'.insert t = .error cause ∧ cause ≠ .bufferPoolFull := by
  obtain ⟨stored, new, new', hinsert, hinsert', hnew⟩ | ⟨cause, hinsert, hinsert'⟩ :=
    HeapPage.insert_congr hcopies.view t
  · exact Or.inl ⟨stored, new, new', hinsert, hinsert', rfl, p, e, e', page, page', new, new', htwins, hcopies,
      hnew, ⟨hinsert, rfl⟩, hinsert', rfl⟩
  · exact Or.inr ⟨cause, hinsert, hinsert', fun hfull => page.insert_ne_full t (hfull ▸ hinsert)⟩

theorem together_insertInto (h : Twins e e') (txn : TxnId) (p : PageId) (t : Tuple) :
    Together (insertInto txn p t) (insertInto txn p t) e e' (PutBoth t) := by
  unfold insertInto insertOn setPage modifyCache
  simp only [bind_assoc]
  refine together_getPage_bind h txn p .readWrite fun h₁ h₂ page page' s s' htwins hcopies => ?_
  obtain ⟨stored, new, new', hinsert, hinsert', hput⟩ | ⟨cause, hinsert, hinsert', hroom⟩ :=
    putBoth_or_refused htwins hcopies t
  · rw [hinsert, hinsert']
    exact hput
  · rw [hinsert, hinsert']
    exact ⟨rfl, hroom, htwins⟩

theorem together_probe (h : Twins e e') (txn : TxnId) (p : PageId) :
    Together (probe txn p) (probe txn p) e e' fun room room' s s' => room' = room ∧ Twins s s' := by
  unfold probe
  refine together_getPage_bind h txn p .readOnly fun h₁ h₂ page page' s s' htwins hcopies => ?_
  rw [together_pure, HeapPage.numFree_congr hcopies.view]
  exact ⟨rfl, htwins⟩

/-- Either the tuple goes onto the page on both sides, or the search goes on. -/
def TriedBoth (t : Tuple) : Option (Tuple × Handle) → Option (Tuple × Handle) → Engine → Engine → Prop
  | some r, some r', s, s' => PutBoth t r r' s s'
  | none, none, s, s' => Twins s s'
  | _, _, _, _ => False

theorem together_tryPage (h : Twins e e') (txn : TxnId) (t : Tuple) (p : PageId) :
    Together (tryPage txn t p) (tryPage txn t p) e e' (TriedBoth t) := by
  unfold tryPage holdsLock setPage modifyCache releasePage
  simp only [bind_assoc, pure_bind, together_get_bind, h.locks]
  refine (together_probe h txn p).bind ?_
  rintro _ room s s' ⟨rfl, htwins⟩
  cases room with
  | false =>
    cases e.locks.holds p txn with
    | true => exact htwins
    | false => exact htwins.withLocks fun locks => (locks.release p txn).2
  | true =>
    simp only [if_true]
    refine together_getPage_bind htwins txn p .readWrite fun h₁ h₂ page page' s₁ s₁' htwins₁ hcopies => ?_
    obtain ⟨stored, new, new', hinsert, hinsert', hput⟩ | ⟨cause, hinsert, hinsert', hroom⟩ :=
      putBoth_or_refused htwins₁ hcopies t
    · rw [hinsert, hinsert']
      exact hput
    · rw [hinsert, hinsert']
      cases cause with
      | pageFull _ => exact htwins₁
      | _ => exact ⟨rfl, hroom, htwins₁⟩

theorem together_insertFirstFit (h : Twins e e') {table : TableId} {entry : TableEntry}
    (ht : e.catalog.byId[table]? = some entry) (txn : TxnId) (t : Tuple) (pages : List Nat) :
    Together (insertFirstFit entry.file txn t table pages) (insertFirstFit entry.file txn t table pages) e e'
      (PutBoth t) := by
  induction pages generalizing e e' with
  | nil =>
    unfold insertFirstFit
    refine (together_allocate h ht).bind ?_
    rintro _ p s s' ⟨rfl, htwins⟩
    exact together_insertInto htwins txn p t
  | cons n rest ih =>
    rw [insertFirstFit_cons]
    refine ((together_tryPage h txn t ⟨table, n⟩).and_left (ends_tryPage h.left.toConsistent txn t _)).bind ?_
    rintro (_ | r) (_ | r') s s' ⟨htried, hleft⟩
    · have hcatalog : s.catalog = e.catalog := hleft.1.catalog
      exact ih htried (hcatalog ▸ ht)
    · exact htried.elim
    · exact htried.elim
    · exact htried

theorem together_insertIntoFile (h : Twins e e') {table : TableId} {entry : TableEntry}
    (ht : e.catalog.byId[table]? = some entry) (txn : TxnId) (t : Tuple) :
    Together (insertIntoFile entry.file txn t) (insertIntoFile entry.file txn t) e e' (PutBoth t) := by
  obtain ⟨f, hf, hftable, -⟩ := h.left.opened table entry ht
  unfold insertIntoFile
  refine (together_file h hf).bind ?_
  rintro g g' _ _ ⟨rfl, rfl, rfl, heq⟩
  obtain ⟨htable, hschema, -, hpages⟩ := HeapFile.uncounted_eq_iff.1 heq
  rw [htable, hschema, hpages, hftable]
  split
  · exact together_insertFirstFit h ht txn t _
  · exact ⟨rfl, by simp, h⟩

theorem ends_markDirty_adopt_put {t : Tuple} {page new : HeapPage} {r : Tuple × Handle} {d : Engine}
    (hd : d.cache.Sound) (hh : d.cache.handle? p = some r.2) (hput : Put t page new r d e) (txn : TxnId) :
    Ends (do markDirty r.2 txn; adopt r.2; return r.2) e
      (fun h s => h = r.2 ∧ s = { d with cache := (d.cache.setPage r.2 (new.markDirty txn)).touch p })
      fun _ _ => False := by
  obtain ⟨hinsert, rfl⟩ := hput
  have hpage : ({ d with cache := d.cache.setPage r.2 new } : Engine).cache.page? r.2 = some new :=
    hd.page?_setPage hh new
  have htarget : r.2.page = p := (Cache.handle?_eq_some_iff.1 hh).2
  unfold markDirty adopt setPage modifyCache
  simp only [ends_bind, ends_page hpage, ends_modify, ends_get, ends_pure, Cache.setPage_setPage,
    Cache.handle?_setPage, htarget, hh, if_true, and_self]

/-- Marking the page on both sides makes the engines twins again. -/
theorem together_markDirty_adopt {t : Tuple} {r r' : Tuple × Handle} (h : PutBoth t r r' e e') (txn : TxnId) :
    Together (do markDirty r.2 txn; adopt r.2; return r.2) (do markDirty r'.2 txn; adopt r'.2; return r'.2) e e'
      fun h h' s s' => Twins s s' ∧ ∃ p, Shared p h h' s s' := by
  obtain ⟨-, p, d, d', page, page', new, new', htwins, hcopies, hnew, hput, hput'⟩ := h
  have hd := htwins.left
  have hd' := htwins.right
  obtain ⟨hwf, -⟩ := hd.fits p page hcopies.copy
  obtain ⟨hwf', -⟩ := hd'.fits p page' hcopies.copy'
  obtain ⟨-, -, -, -, -, hwfNew, hid, hschema⟩ := hwf.insert hput.inserted
  obtain ⟨-, -, -, -, -, hwfNew', -⟩ := hwf'.insert hput'.inserted
  refine .of_ends_ok (ends_markDirty_adopt_put hd.sound hcopies.handle hput txn)
    (ends_markDirty_adopt_put hd'.sound hcopies.handle' hput' txn) ?_
  rintro h h' s s' ⟨rfl, rfl⟩ ⟨rfl, rfl⟩
  have hset := htwins.setPage hcopies hwfNew hwfNew' hid hschema hnew txn
  have hmarked : (new.markDirty txn).view = (new'.markDirty txn).view := by
    rw [HeapPage.view_markDirty, HeapPage.view_markDirty, hnew]
  have hshared := htwins.shared_setPage hcopies hmarked
  exact ⟨hset.touch hshared.cachedBoth, p, hshared.touch p⟩

/-- The tuple comes back the same, with an object for the same page or the same cause of failure. -/
theorem both_insert (h : Twins e e') (txn : TxnId) (table : TableId) (t : Tuple) :
    Both (insert txn table t) (insert txn table t) e e' fun r r' s s' => r'.tuple = r.tuple ∧
      Outcomes (fun h h' s s' => Twins s s' ∧ ∃ p, Shared p h h' s s') r.outcome r'.outcome s s' := by
  have hstored : Together (do insertIntoFile (← tableFile table) txn t)
      (do insertIntoFile (← tableFile table) txn t) e e' (PutBoth t) := by
    refine (together_tableFile h table).bind ?_
    rintro fd _ _ _ ⟨rfl, rfl, rfl, entry, ht, rfl⟩
    exact together_insertIntoFile h ht txn t
  unfold insert
  rw [both_bind]
  refine Both.mono hstored ?_
  intro x x' s s' houtcomes
  obtain ⟨r, r', rfl, rfl, hput⟩ | ⟨cause, rfl, rfl, hroom, htwins⟩ := outcomes_iff.1 houtcomes
  · exact ⟨hput.1, together_markDirty_adopt hput txn⟩
  · exact ⟨rfl, rfl, hroom, htwins⟩

/-! ### Deleting -/

/-- A page that is cached on both sides can be deleted from on both. -/
theorem together_delete (h : Twins e e') (txn : TxnId) {r : RecordId}
    (hp : CachedBoth r.page e e') :
    Together (delete txn (some r)) (delete txn (some r)) e e'
      fun h h' s s' => Twins s s' ∧ Shared r.page h h' s s' := by
  unfold delete deleteFromFile markDirty setPage modifyCache
  dsimp only
  rw [together_get_bind, Cache.isCached_eq, Cache.isCached_eq, hp.1, hp.2, if_pos rfl]
  refine (together_tableFile h r.page.table).bind ?_
  rintro fd _ _ _ ⟨rfl, rfl, rfl, entry, ht, rfl⟩
  obtain ⟨f, hf, hftable, -⟩ := h.left.opened _ entry ht
  rw [bind_assoc]
  refine (together_file h hf).bind ?_
  rintro g g' _ _ ⟨rfl, rfl, rfl, heq⟩
  obtain ⟨htable, -⟩ := HeapFile.uncounted_eq_iff.1 heq
  rw [htable, hftable, if_pos rfl]
  simp only [bind_assoc]
  refine together_getPage_bind h txn r.page .readWrite fun h₁ h₂ page page' s s' htwins hcopies => ?_
  obtain ⟨new, new', hdelete, hdelete', hnew⟩ | ⟨cause, hdelete, hdelete'⟩ :=
    HeapPage.delete_congr hcopies.view (some r)
  · rw [hdelete, hdelete']
    obtain ⟨hwf, -⟩ := htwins.left.fits _ page hcopies.copy
    obtain ⟨hwf', -⟩ := htwins.right.fits _ page' hcopies.copy'
    obtain ⟨-, -, -, -, -, -, hwfNew, hid, hschema⟩ := hwf.delete hdelete
    obtain ⟨-, -, -, -, -, -, hwfNew', -⟩ := hwf'.delete hdelete'
    have hset := htwins.setPage hcopies hwfNew hwfNew' hid hschema hnew txn
    -- The page is set twice, the second time marked as changed.
    show Together (Op.page h₁ >>= _) (Op.page h₂ >>= _) { s with cache := s.cache.setPage h₁ new }
      { s' with cache := s'.cache.setPage h₂ new' } _
    rw [together_page_bind (htwins.left.sound.page?_setPage hcopies.handle new)
        (htwins.right.sound.page?_setPage hcopies.handle' new'),
      together_modify_bind, together_pure, Cache.setPage_setPage, Cache.setPage_setPage]
    exact ⟨hset, htwins.shared_setPage hcopies hnew⟩
  · rw [hdelete, hdelete']
    exact ⟨rfl, fun hfull => page.delete_ne_full (some r) (hfull ▸ hdelete), htwins⟩

end Op

/-! ### Scans -/

namespace Scan

open Engine

variable {e e' : Engine}

/-- The same record, of a page that is cached on both sides. -/
structure SameRecord (t t' : Tuple) (s s' : Engine) : Prop where
  twins : Twins s s'
  values : t'.values = t.values
  record : ∃ r, t.recordId = some r ∧ t'.recordId = some r ∧ CachedBoth r.page s s'

/-- The same record on both sides, or none on either. -/
def SameFind : Option Tuple → Option Tuple → Engine → Engine → Prop
  | some t, some t', s, s' => SameRecord t t' s s'
  | none, none, s, s' => Twins s s'
  | _, _, _, _ => False

theorem sameFind_iff {found found' : Option Tuple} :
    SameFind found found' e e' ↔ (found = none ∧ found' = none ∧ Twins e e') ∨
      ∃ t t', found = some t ∧ found' = some t' ∧ SameRecord t t' e e' := by
  cases found <;> cases found' <;> simp [SameFind]

/-- Both searches go on, or both end in the same way. -/
def SameLook : Option (Except StorageError (Option Tuple) × Position) →
    Option (Except StorageError (Option Tuple) × Position) → Engine → Engine → Prop
  | some (x, pos), some (x', pos'), s, s' => pos' = pos ∧ Outcomes SameFind x x' s s'
  | none, none, s, s' => Twins s s'
  | _, _, _, _ => False

theorem both_look (h : Twins e e') (table : TableId) (txn : TxnId) (pos : Position) :
    Both (look table txn pos) (look table txn pos) e e' SameLook := by
  have hfetched : Op.Together (Op.getPage txn ⟨table, pos.page⟩ .readOnly >>= fun h => Op.page h >>= pure)
      (Op.getPage txn ⟨table, pos.page⟩ .readOnly >>= fun h => Op.page h >>= pure) e e' fun page page' s s' =>
        Twins s s' ∧ ∃ h h', Copies ⟨table, pos.page⟩ h h' page page' s s' :=
    Op.together_getPage_bind h txn _ .readOnly fun h₁ h₂ page page' s s' htwins hcopies =>
      ⟨htwins, h₁, h₂, hcopies⟩
  simp only [bind_pure] at hfetched
  unfold look
  rw [both_get_bind, both_bind, h.locks]
  refine Both.mono hfetched ?_
  intro x x' s s' houtcomes
  obtain ⟨page, page', rfl, rfl, htwins, h₁, h₂, -, -, hcopy, hcopy', hview⟩ | ⟨cause, rfl, rfl, hroom, htwins⟩ :=
    outcomes_iff.1 houtcomes
  · obtain ⟨hwf, -⟩ := htwins.left.fits _ page hcopy
    obtain ⟨hwf', -⟩ := htwins.right.fits _ page' hcopy'
    have hid := htwins.left.sound.id_of_copy hcopy
    obtain ⟨hnone, hnone'⟩ | ⟨slot, t, t', hsome, hsome', hvalues, hrecord, hrecord'⟩ :=
      HeapPage.next_congr hwf hwf' hview pos.slot
    · dsimp only
      rw [hnone, hnone', ← HeapPage.isEmpty_congr hview]
      dsimp only
      split
      · exact htwins.withLocks fun locks => (locks.release ⟨table, pos.page⟩ txn).2
      · exact htwins
    · dsimp only
      rw [hsome, hsome']
      rw [hid] at hrecord hrecord'
      exact ⟨rfl, htwins, hvalues, _, hrecord, hrecord', Cache.isSome_handle? hcopy, Cache.isSome_handle? hcopy'⟩
  · exact ⟨rfl, rfl, hroom, htwins⟩

/-- The searches find the same record, if any, and reach the same position. -/
theorem both_search (h : Twins e e') (table : TableId) (txn : TxnId) (pages : Nat) (pos : Position) :
    Both (search table txn pages pos) (search table txn pages pos) e e' fun found found' s s' =>
      found'.2 = found.2 ∧ Outcomes SameFind found.1 found'.1 s s' := by
  induction pages generalizing e e' pos with
  | zero => exact ⟨rfl, h⟩
  | succ pages ih =>
    rw [search_succ, both_bind]
    refine (both_look h table txn pos).mono ?_
    rintro (_ | found) (_ | found') s s' hlook
    · exact ih hlook ⟨pos.page + 1, 0⟩
    · exact hlook.elim
    · exact hlook.elim
    · exact hlook

theorem both_seek (h : Twins e e') (scan : Scan) :
    Both scan.seek scan.seek e e' fun found found' s s' =>
      found'.2 = found.2 ∧ Outcomes SameFind found.1 found'.1 s s' := by
  unfold seek
  rw [both_get_bind]
  cases hf : e.store.file? scan.file with
  | none =>
    have hfiles := h.agrees.files scan.file
    rw [hf, Option.map_none] at hfiles
    rw [Option.map_eq_none_iff.1 hfiles]
    exact ⟨rfl, rfl, by simp, h⟩
  | some f =>
    obtain ⟨f', hf', heq⟩ := h.exists_file hf
    obtain ⟨htable, -, -, hpages⟩ := HeapFile.uncounted_eq_iff.1 heq
    rw [hf']
    dsimp only
    rw [htable, hpages, both_bind]
    refine (both_search h f.table scan.txn (f.numPages - scan.position.page) scan.position).mono ?_
    rintro ⟨x, pos⟩ ⟨x', _⟩ s s' ⟨rfl, houtcomes⟩
    exact ⟨rfl, houtcomes⟩

theorem both_hasNext (h : Twins e e') (scan : Scan) :
    Both scan.hasNext scan.hasNext e e' fun more more' s s' =>
      more'.2 = more.2 ∧ Outcomes (fun b b' s s' => b' = b ∧ Twins s s') more.1 more'.1 s s' := by
  unfold hasNext
  cases scan.isOpen with
  | false => exact ⟨rfl, rfl, h⟩
  | true =>
    simp only [Bool.not_true, Bool.false_eq_true, if_false]
    rw [both_bind]
    refine (both_seek h scan).mono ?_
    rintro ⟨x, _⟩ ⟨x', _⟩ s s' ⟨rfl, houtcomes⟩
    refine ⟨rfl, ?_⟩
    obtain ⟨found, found', rfl, rfl, hsame⟩ | ⟨cause, rfl, rfl, hroom, htwins⟩ := outcomes_iff.1 houtcomes
    · obtain ⟨rfl, rfl, htwins⟩ | ⟨t, t', rfl, rfl, hsame⟩ := sameFind_iff.1 hsame
      · exact ⟨rfl, htwins⟩
      · exact ⟨rfl, hsame.twins⟩
    · exact ⟨rfl, hroom, htwins⟩

/-- What comes back is the same record, and its page is cached on both sides. -/
theorem both_next (h : Twins e e') (scan : Scan) :
    Both scan.next scan.next e e' fun row row' s s' =>
      row'.2 = row.2 ∧ Outcomes SameRecord row.1 row'.1 s s' := by
  unfold next
  cases scan.isOpen with
  | false => exact ⟨rfl, rfl, by simp [StorageError.scanNotOpen], h⟩
  | true =>
    simp only [Bool.not_true, Bool.false_eq_true, if_false]
    rw [both_bind]
    refine (both_seek h scan).mono ?_
    rintro ⟨x, _⟩ ⟨x', _⟩ s s' ⟨rfl, houtcomes⟩
    obtain ⟨found, found', rfl, rfl, hsame⟩ | ⟨cause, rfl, rfl, hroom, htwins⟩ := outcomes_iff.1 houtcomes
    · obtain ⟨rfl, rfl, htwins⟩ | ⟨t, t', rfl, rfl, hsame⟩ := sameFind_iff.1 hsame
      · exact ⟨rfl, rfl, by simp [StorageError.scanAtEnd], htwins⟩
      · exact ⟨rfl, hsame⟩
    · exact ⟨rfl, rfl, hroom, htwins⟩

end Scan

end HeapStore
