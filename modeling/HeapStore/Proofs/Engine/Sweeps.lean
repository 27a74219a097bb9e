import HeapStore.Proofs.Engine.Cursors
import HeapStore.Proofs.Engine.Failures
import Mathlib.Data.List.Sort

/-!
# Deleting while scanning

A sweep goes through the tuples of a table and deletes some of them on its way: it asks the scan whether there is a
tuple, for this tuple, and has the pool delete it if it is doomed (`Scan.sweep`). Each delete changes the page that the
scan stands on, needs this page to be cached and raises the lock that the scan has taken on it.

Nothing of this fails while the transaction works alone in the engine (`Engine.WorksAlone`): every lock is granted, as
nobody else holds or wants one (`LockTable.UsedBy.granted`); room can be made for every page, as nobody holds one
(`Cache.Vacant.victim?_ne_none`); and the page of the tuple that was just given is still cached.

What is left to the scan is a list of tuples (`Engine.Lists`). A call for the next tuple takes the head of the list, and
a delete there leaves the rest alone, so the sweep goes by induction on the list. It gives all tuples of the table, each
once, and what it leaves are those that were not doomed (`Engine.Pooled.sweep_exact`).
-/

namespace HeapStore

open Engine

/-! ### The loop -/

namespace Scan

/-- How a loop over a scan ends: with the scan, with a failure, or because it has used up its rounds. -/
inductive Stop where
  | atEnd
  | failed (cause : StorageError)
  | cut
deriving DecidableEq

/-- Deletes a tuple if it is doomed. -/
def strike (doomed : Tuple → Bool) (txn : TxnId) (tuple : Tuple) : Op Unit := do
  if doomed tuple then
    let _ ← Op.delete txn tuple.recordId

/-- One round of the loop: the next tuple is taken, and deleted if it is doomed. The answer has the tuple, if there was
one, and the cause if something failed. -/
def round (doomed : Tuple → Bool) (s : Scan) : StateM Engine ((List Tuple × Option StorageError) × Scan) := do
  match ← s.next with
  | (.error cause, s) => return (([], some cause), s)
  | (.ok tuple, s) =>
    match ← (strike doomed s.txn tuple).run with
    | .error cause => return (([tuple], some cause), s)
    | .ok () => return (([tuple], none), s)

/-- Goes through the scan, for so many rounds at most, and deletes the doomed tuples. The answer has the tuples that
the scan gave. -/
def sweep (doomed : Tuple → Bool) : (rounds : Nat) → Scan → StateM Engine ((List Tuple × Stop) × Scan)
  | 0, s => return (([], .cut), s)
  | rounds + 1, s => do
    match ← s.hasNext with
    | (.error cause, s) => return (([], .failed cause), s)
    | (.ok false, s) => return (([], .atEnd), s)
    | (.ok true, s) =>
      match ← s.round doomed with
      | ((given, some cause), s) => return ((given, .failed cause), s)
      | ((given, none), s) =>
        let ((rest, stop), s) ← sweep doomed rounds s
        return ((given ++ rest, stop), s)

end Scan

/-! ### Locks of one transaction -/

namespace LockTable

variable {t t' : LockTable} {p : PageId} {txn : TxnId} {mode : LockMode}

/-- Only this transaction holds locks or waits for any. -/
structure UsedBy (txn : TxnId) (t : LockTable) : Prop where
  held : ∀ q u, t.holds q u = true → u = txn
  queued : ∀ q, ∀ r ∈ (t.locks q).waiters, r.txn = txn

theorem UsedBy.granted (h : UsedBy txn t) (p : PageId) (mode : LockMode) : (t.acquireAlone p txn mode).1 = true := by
  have hadmits : (t.locks p).Admits txn mode := fun u held hu hne =>
    absurd (h.held p u (Option.isSome_iff_exists.2 ⟨held, hu⟩)) hne
  have hahead : (t.locks p).ahead txn = [] := List.eq_nil_iff_forall_not_mem.2 fun r hr =>
    PageLocks.ne_of_mem_ahead hr (h.queued p r (PageLocks.mem_waiters_of_mem_ahead hr))
  have hgrantable : t.grantable p txn mode = true :=
    PageLocks.grantable_iff.2 (Or.inr ⟨hadmits, Or.inr (Or.inl hahead)⟩)
  rw [acquireAlone, if_pos hgrantable]

/-- What others hold does not change, and no request joins a queue. -/
theorem UsedBy.of_others (h : UsedBy txn t) (hothers : ∀ q u, u ≠ txn → t'.mode? q u = t.mode? q u)
    (hqueues : ∀ q, ∀ r ∈ (t'.locks q).waiters, r ∈ (t.locks q).waiters) : UsedBy txn t' where
  held q u hu := by
    by_contra hne
    rw [holds, hothers q u hne] at hu
    exact hne (h.held q u hu)
  queued q r hr := h.queued q r (hqueues q r hr)

theorem UsedBy.acquireAlone (h : UsedBy txn t) : UsedBy txn (t.acquireAlone p txn mode).2 := by
  have hgains : Gains txn t (t.acquireAlone p txn mode).2 := .acquireAlone
  refine h.of_others hgains.others fun q r hr => ?_
  obtain hsame | ⟨-, hfilter⟩ := @waiters_acquireAlone t p txn mode q
  · exact hsame ▸ hr
  · exact List.filter_sublist.mem (hfilter ▸ hr)

theorem UsedBy.release (h : UsedBy txn t) : UsedBy txn (t.release p txn).2 := by
  refine h.of_others (fun q u hu => ?_) fun q r hr => waiters_release q ▸ hr
  rw [mode?_release, if_neg fun heq => hu heq.2]

end LockTable

/-! ### The engine of one transaction -/

namespace Cache

variable {c c' : Cache}

/-- There is a place for every page, as nobody holds one. -/
structure Vacant (c : Cache) : Prop extends Bounded c where
  room : 0 < c.capacity
  unheld : ∀ o, c.holders o = 0

theorem Vacant.victim?_ne_none (h : c.Vacant) (hfull : c.isFull = true) : c.victim? ≠ none := by
  have hunheld : c.Unheld := fun o frame hframe => by
    simpa [holders, hframe] using h.unheld o
  obtain ⟨p, handle, hvictim, -⟩ := h.toTracked.exists_victim hunheld h.room hfull
  simp [hvictim]

theorem Vacant.of_minds (h : c.Vacant) (hb : c'.Bounded) (hminds : c.Minds c') : c'.Vacant :=
  ⟨hb, hminds.capacity ▸ h.room, fun o => (hminds.holders o).trans (h.unheld o)⟩

end Cache

namespace Engine

variable {e e' : Engine} {t : TableId} {txn : TxnId} {n m : Nat} {p : PageId} {size : List String → Nat}

/-- A transaction works alone on a table of `n` pages, all of which can be read. Callers hold no page object, and the
files on the disk have these lengths. -/
structure WorksAlone (txn : TxnId) (t : TableId) (n : Nat) (size : List String → Nat) (e : Engine) : Prop
    extends Consistent e where
  cache : e.cache.Vacant
  locks : LockTable.UsedBy txn e.locks
  numPages : e.numPages? t = some n
  readable : ∀ m < n, ∃ rows, e.content ⟨t, m⟩ = .ok rows
  sizes : ∀ file, e.fileLength file = size file

theorem PoolSteps.vacant {may : Work → Prop} {log : List PageId} {wanted : Option PageId}
    (h : PoolSteps may e log wanted e') (hv : e.cache.Vacant) : e'.cache.Vacant := by
  obtain ⟨hbounded, hminds⟩ := h.minds hv.toBounded
  exact hv.of_minds hbounded hminds

theorem WorksAlone.of_keeps (h : WorksAlone txn t n size e) (hkeeps : e.Keeps e') (hcache : e'.cache.Vacant)
    (hlocks : LockTable.UsedBy txn e'.locks) : WorksAlone txn t n size e' where
  toConsistent := hkeeps.consistent
  cache := hcache
  locks := hlocks
  numPages := hkeeps.numPages? h.toConsistent h.numPages
  readable m hm := (h.readable m hm).imp fun _ hrows => (hkeeps.content _).trans hrows
  sizes file := (hkeeps.fileLength file).trans (h.sizes file)

theorem WorksAlone.release (h : WorksAlone txn t n size e) (p : PageId) :
    WorksAlone txn t n size { e with locks := (e.locks.release p txn).2 } :=
  h.of_keeps (h.keeps_locks _) h.cache h.locks.release

theorem WorksAlone.ends_fetch (h : WorksAlone txn t n size e) {rows : List (Option (List Value))}
    (hrows : e.content p = .ok rows) :
    Ends (Op.fetch p) e (fun _ e' => WorksAlone txn t n size e') fun _ _ => False := by
  refine ((Op.ends_fetch_moves h.toConsistent p).and (Op.ends_fetch_steps h.cache.toBounded p)).mono ?_ ?_
  · rintro handle e' ⟨⟨hmoves, -⟩, hsteps, -⟩
    exact h.of_keeps (hmoves.keeps h.toConsistent) (hsteps.vacant h.cache) (hmoves.locks ▸ h.locks)
  · rintro cause e' ⟨⟨-, -, hfull, hnone⟩ | ⟨-, hmissing, hcause⟩, -⟩
    · exact h.cache.victim?_ne_none hfull hnone
    · rw [content_of_not_cached (Cache.copy?_eq_none hmissing), hcause] at hrows
      simp [Except.map] at hrows

theorem WorksAlone.ends_getPage (h : WorksAlone txn t n size e) {rows : List (Option (List Value))}
    (hrows : e.content p = .ok rows) (access : Access) :
    Ends (Op.getPage txn p access) e
      (fun handle e' => WorksAlone txn t n size e' ∧ Quiet txn e e' ∧ e'.cache.handle? p = some handle ∧
        ∃ page, e'.cache.copy? p = some page ∧ e'.cache.page? handle = some page)
      fun _ _ => False := by
  have hgranted := h.locks.granted p access.lockMode
  have halone : Ends (Op.getPage txn p access) e (fun _ e' => WorksAlone txn t n size e') fun _ _ => False := by
    have hlocked : WorksAlone txn t n size { e with locks := (e.locks.acquireAlone p txn access.lockMode).2 } :=
      h.of_keeps (h.keeps_locks _) h.cache h.locks.acquireAlone
    unfold Op.getPage Op.holdsLock Op.lock
    simp only [ends_bind, ends_get, ends_pure, ends_tryCatch, ends_modify, hgranted, if_true]
    exact (hlocked.ends_fetch (((h.keeps_locks _).content p).trans hrows)).mono_ok fun _ _ halone => halone
  refine ((Op.ends_getPage h.toConsistent txn p access).and halone).mono ?_ fun _ _ hfalse => hfalse.2
  rintro handle e' ⟨⟨hquiet, hhandle, -⟩, halone⟩
  obtain ⟨page, hpage, hcopy, -⟩ := hquiet.consistent.sound.exists_copy hhandle
  exact ⟨halone, hquiet, hhandle, page, hcopy, hpage⟩

end Engine

/-! ### Scans that cannot fail -/

namespace Scan

variable {e e' : Engine} {t : TableId} {txn : TxnId} {n : Nat} {size : List String → Nat} {pos : Position} {s : Scan}

/-- What a search finds is on a page that is cached when it ends. -/
theorem settles_look_alone (h : WorksAlone txn t n size e) (hpos : pos.page < n) :
    Settles (look t txn pos) e fun answer e' => WorksAlone txn t n size e' ∧
      ∀ result pos', answer = some (result, pos') →
        (∃ tuple, result = .ok (some tuple)) ∧ e'.cache.isCached ⟨t, pos'.page⟩ = true := by
  obtain ⟨rows, hrows⟩ := h.readable pos.page hpos
  unfold look
  simp only [settles_bind, settles_get, settles_run, ends_bind]
  apply (h.ends_getPage hrows .readOnly).mono_ok
  rintro handle e₁ ⟨halone, -, hhandle, page, -, hpage⟩
  have hcached : e₁.cache.isCached ⟨t, pos.page⟩ = true := by rw [Cache.isCached_eq, hhandle]; rfl
  rw [Op.ends_page hpage]
  cases (page.nextUsed? pos.slot).bind fun slot => (page.tuple? slot).map (slot, ·) with
  | some found =>
    refine ⟨halone, fun result pos' hanswer => ?_⟩
    obtain ⟨rfl, rfl⟩ := Prod.mk.inj (Option.some.inj hanswer)
    exact ⟨⟨found.2, rfl⟩, hcached⟩
  | none =>
    dsimp only
    split
    · exact ⟨halone.release _, by simp⟩
    · exact ⟨halone, by simp⟩

theorem settles_search_alone (h : WorksAlone txn t n size e) {pages : Nat} (hpages : pages ≤ n - pos.page) :
    Settles (search t txn pages pos) e fun answer e' => WorksAlone txn t n size e' ∧
      ∃ found, answer.1 = .ok found ∧
        (found.isSome = true → e'.cache.isCached ⟨t, answer.2.page⟩ = true) := by
  induction pages generalizing e pos with
  | zero => exact ⟨h, none, rfl, nofun⟩
  | succ pages ih =>
    rw [search_succ, settles_bind]
    apply (settles_look_alone h (by omega)).mono
    rintro (_ | ⟨result, pos'⟩) e₁ ⟨halone, hanswer⟩
    · exact ih halone (by dsimp only; omega)
    · obtain ⟨⟨tuple, rfl⟩, hcached⟩ := hanswer result pos' rfl
      exact ⟨halone, some tuple, rfl, fun _ => hcached⟩

theorem settles_seek_alone (h : WorksAlone s.txn t n size e) (hfile : e.catalog.file t = .ok s.file) :
    Settles s.seek e fun answer e' => WorksAlone s.txn t n size e' ∧
      ∃ found, answer.1 = .ok found ∧
        (found.isSome = true → e'.cache.isCached ⟨t, answer.2.position.page⟩ = true) := by
  obtain ⟨f, hf, rfl, hopen⟩ := h.toConsistent.exists_file hfile
  have hpages : f.numPages = n := Option.some.inj ((congrArg _ hopen).symm.trans h.numPages)
  unfold seek
  rw [settles_bind, settles_get, hf]
  dsimp only
  rw [settles_bind, hpages]
  exact settles_search_alone h (le_refl _)

theorem settles_hasNext_alone (h : WorksAlone s.txn t n size e) (hfile : e.catalog.file t = .ok s.file) :
    Settles s.hasNext e fun answer e' => WorksAlone s.txn t n size e' ∧ ∃ more, answer.1 = .ok more := by
  unfold hasNext
  split
  · exact ⟨h, false, rfl⟩
  · rw [settles_bind]
    apply (settles_seek_alone h hfile).mono
    rintro ⟨result, s'⟩ e' ⟨halone, found, rfl, -⟩
    exact ⟨halone, found.isSome, rfl⟩

theorem settles_next_alone (h : WorksAlone s.txn t n size e) (hfile : e.catalog.file t = .ok s.file)
    (hopen : s.isOpen = true) :
    Settles s.next e fun answer e' => WorksAlone s.txn t n size e' ∧
      match answer.1 with
      | .ok _ => e'.cache.isCached ⟨t, answer.2.position.page⟩ = true
      | .error cause => cause = .scanAtEnd := by
  unfold next
  simp only [hopen, Bool.not_true, Bool.false_eq_true, if_false, settles_bind]
  apply (settles_seek_alone h hfile).mono
  rintro ⟨result, s'⟩ e' ⟨halone, found, rfl, hcached⟩
  cases found with
  | none => exact ⟨halone, rfl⟩
  | some tuple => exact ⟨halone, hcached rfl⟩

end Scan

/-! ### Deletes that cannot fail -/

namespace Engine

variable {e e' : Engine} {t : TableId} {txn : TxnId} {n : Nat} {p : PageId} {size : List String → Nat} {r : RecordId}

theorem exists_rows_of_row {slot : Nat} {values : List Value} (h : e.row p slot = some values) :
    ∃ rows, e.content p = .ok rows := by
  unfold row at h
  split at h
  · next rows hrows => exact ⟨rows, hrows⟩
  · simp at h

theorem WorksAlone.ends_delete (h : WorksAlone txn t n size e) (ht : e.file? r.page.table ≠ none)
    (hcached : e.cache.isCached r.page = true) {values : List Value}
    (hrow : e.row r.page r.slot.toNat = some values) :
    Ends (Op.delete txn (some r)) e (fun _ e' => LockTable.UsedBy txn e'.locks) fun _ _ => False := by
  obtain ⟨f, hf⟩ := Option.ne_none_iff_exists'.1 ht
  obtain ⟨entry, hentry, hfile, htable, -⟩ := h.exists_entry hf
  obtain ⟨rows, hrows⟩ := exists_rows_of_row hrow
  unfold Op.delete Op.deleteFromFile
  simp only [ends_bind, ends_get, hcached, if_true, Op.ends_tableFile hentry, Op.ends_onFiles,
    FileOp.ends_file hfile, htable]
  apply (h.ends_getPage hrows .readWrite).mono_ok
  rintro handle e₁ ⟨halone, hquiet, hhandle, page, hcopy, hpage⟩
  obtain ⟨hwf, -⟩ := halone.fits _ page hcopy
  have hused : (page.tuple? r.slot.toNat).isSome = true := by
    have hvalues : e₁.row r.page r.slot.toNat = some values := (row_congr (hquiet.content _) _).trans hrow
    rw [row_of_copy hcopy] at hvalues
    rw [← Option.isSome_map, hvalues]
    rfl
  obtain ⟨page', hdelete⟩ := hwf.exists_delete_iff.2 ⟨r, rfl, (halone.sound.id_of_copy hcopy).symm, hused⟩
  have hpage' : ({ e₁ with cache := e₁.cache.setPage handle page' } : Engine).cache.page? handle = some page' :=
    halone.sound.page?_setPage hhandle page'
  unfold Op.markDirty Op.setPage Op.modifyCache
  rw [Op.ends_page hpage, hdelete, ends_liftExcept]
  refine ⟨fun page'' hsame => ?_, by simp⟩
  obtain rfl := Except.ok.inj hsame
  simp only [ends_bind, ends_modify, ends_pure, Op.ends_page hpage']
  exact halone.locks

/-- What a delete of a tuple comes to, or of none: nothing else changes. -/
structure Struck (gone : Bool) (r : RecordId) (e e' : Engine) : Prop where
  catalog : e'.catalog = e.catalog
  elsewhere : ∀ q, q ≠ r.page → e'.content q = e.content q
  self : e'.row r.page r.slot.toNat = if gone then none else e.row r.page r.slot.toNat
  others : ∀ r', r' ≠ r → e'.row r'.page r'.slot.toNat = e.row r'.page r'.slot.toNat

theorem Keeps.struck (h : e.Keeps e') (r : RecordId) : Struck false r e e' :=
  ⟨h.catalog, fun q _ => h.content q, row_congr (h.content _) _, fun _ _ => row_congr (h.content _) _⟩

theorem Writes.struck {old : Option (List Value)} (h : Writes txn r.page r.slot.toNat old none e e') :
    Struck true r e e' := by
  obtain ⟨rows, hbefore, hold, hafter⟩ := h.rows
  refine ⟨h.catalog, h.others, ?_, fun r' hne => ?_⟩
  · rw [row, hafter]
    simp [(List.getElem?_eq_some_iff.1 hold).1]
  · by_cases hpage : r'.page = r.page
    · have hslot : r.slot.toNat ≠ r'.slot.toNat := fun heq => by
        have hposition : r'.position = r.position := by rw [RecordId.position, RecordId.position, hpage, heq]
        exact hne (RecordId.eq_of_position (congrArg PageId.table hpage) hposition)
      rw [hpage, row, row, hbefore, hafter]
      dsimp only
      rw [List.getElem?_set_ne hslot]
    · exact row_congr (h.others _ hpage) _

theorem Struck.after_keeps {gone : Bool} {e₁ : Engine} (hkeeps : e.Keeps e₁) (h : Struck gone r e₁ e') :
    Struck gone r e e' := by
  refine ⟨h.catalog.trans hkeeps.catalog, fun q hq => (h.elsewhere q hq).trans (hkeeps.content q), ?_,
    fun r' hne => (h.others r' hne).trans (row_congr (hkeeps.content _) _)⟩
  rw [h.self, row_congr (hkeeps.content _)]

theorem WorksAlone.of_writes {e₁ : Engine} {slot : Nat} {old row : Option (List Value)}
    (h : WorksAlone txn t n size e) (hquiet : Quiet txn e e₁) (hwrites : Writes txn p slot old row e₁ e')
    (hcache : e'.cache.Vacant) (hlocks : LockTable.UsedBy txn e'.locks) : WorksAlone txn t n size e' where
  toConsistent := hwrites.consistent
  cache := hcache
  locks := hlocks
  numPages := hwrites.numPages? hquiet.consistent (hquiet.toKeeps.numPages? h.toConsistent h.numPages)
  readable m hm := by
    by_cases hp : (⟨t, m⟩ : PageId) = p
    · obtain ⟨rows, -, -, hafter⟩ := hwrites.rows
      exact ⟨_, hp ▸ hafter⟩
    · exact (h.readable m hm).imp fun _ hrows => (hwrites.others _ hp).trans ((hquiet.content _).trans hrows)
  sizes file := (hwrites.lengths.fileLength file).trans ((hquiet.fileLength file).trans (h.sizes file))

theorem WorksAlone.ends_strike (h : WorksAlone txn t n size e) (doomed : Tuple → Bool) {tuple : Tuple}
    (hid : tuple.recordId = some r) (ht : r.page.table = t) (hcached : e.cache.isCached r.page = true)
    (hrow : e.row r.page r.slot.toNat = some tuple.values) :
    Ends (Scan.strike doomed txn tuple) e
      (fun _ e' => WorksAlone txn t n size e' ∧ Struck (doomed tuple) r e e') fun _ _ => False := by
  unfold Scan.strike
  cases doomed tuple with
  | false => exact ⟨h, h.keeps_refl.struck r⟩
  | true =>
    have hfile : e.file? r.page.table ≠ none := fun hnone => by
      have hnumPages := h.numPages
      rw [← ht, numPages?, hnone] at hnumPages
      simp at hnumPages
    rw [if_pos rfl, ends_bind, hid]
    refine (((Op.ends_delete h.toConsistent txn (some r)).and (Op.ends_delete_steps h.cache.toBounded txn (some r))).and
      (h.ends_delete hfile hcached hrow)).mono ?_ fun _ _ hfalse => hfalse.2
    rintro handle e' ⟨⟨⟨rid, values, e₁, hr, hquiet, hwrites⟩, rid', -, hsteps, -⟩, hlocks⟩
    obtain rfl := Option.some.inj hr
    exact ⟨h.of_writes hquiet hwrites (hsteps.vacant h.cache) hlocks, hwrites.struck.after_keeps hquiet.toKeeps⟩

/-! ### The tuples of a table -/

/-- The tuples of a page and their records, in order. -/
def tuplesOn (e : Engine) (p : PageId) : List (RecordId × List Value) :=
  match e.content p with
  | .ok rows => rows.zipIdx.filterMap fun (row, slot) => row.map (HeapPage.recordId p slot, ·)
  | .error _ => []

/-- The tuples of a table and their records, in order. -/
def tuples (e : Engine) (t : TableId) : List (RecordId × List Value) :=
  (e.pages t).flatMap fun n => e.tuplesOn ⟨t, n⟩

theorem tuplesOn_of_content {rows : List (Option (List Value))} (h : e.content p = .ok rows) :
    e.tuplesOn p = rows.zipIdx.filterMap fun (row, slot) => row.map (HeapPage.recordId p slot, ·) := by
  rw [tuplesOn, h]

theorem tuples_of_numPages (hn : e.numPages? t = some n) :
    e.tuples t = (List.range n).flatMap fun m => e.tuplesOn ⟨t, m⟩ := by
  rw [tuples, pages_eq hn]

/-- A page has fewer slots than slots can be numbered. -/
theorem Consistent.length_rows (he : e.Consistent) {rows : List (Option (List Value))}
    (hrows : e.content p = .ok rows) : rows.length < 65536 := by
  have hlength : ∀ page : HeapPage, page.WellFormed → page.rows.length < 65536 := fun page hwf => by
    rw [page.length_rows, HeapPage.numSlots, hwf.length_slots]
    exact slotsPerPage_lt _
  cases hcopy : e.cache.copy? p with
  | some page =>
    obtain rfl := Except.ok.inj ((content_of_copy hcopy).symm.trans hrows)
    exact hlength page (he.fits p page hcopy).1
  | none =>
    rw [content_of_not_cached hcopy] at hrows
    cases hstored : e.stored p with
    | error cause =>
      rw [hstored] at hrows
      simp [Except.map] at hrows
    | ok page =>
      rw [hstored] at hrows
      obtain rfl := Except.ok.inj hrows
      exact hlength page (he.fits_stored hstored).1.1

theorem Consistent.mem_tuplesOn (he : e.Consistent) {values : List Value} :
    (r, values) ∈ e.tuplesOn p ↔ r.page = p ∧ e.row p r.slot.toNat = some values := by
  unfold tuplesOn row
  cases hrows : e.content p with
  | error cause => simp
  | ok rows =>
    have hlength := he.length_rows hrows
    simp only [List.mem_filterMap, Prod.exists, Option.map_eq_some_iff, Prod.mk.injEq, List.mem_zipIdx_iff_getElem?]
    constructor
    · rintro ⟨row, slot, hrow, values', rfl, rfl, rfl⟩
      have hslot : slot < 65536 := (List.getElem?_eq_some_iff.1 hrow).1.trans hlength
      refine ⟨rfl, ?_⟩
      rw [HeapPage.toNat_recordId hslot, hrow]
      rfl
    · rintro ⟨rfl, hrow⟩
      refine ⟨some values, r.slot.toNat, Option.join_eq_some_iff.1 hrow, values, rfl, ?_, rfl⟩
      rw [HeapPage.recordId, UInt16.ofNat_toNat]

theorem Consistent.mem_tuples (he : e.Consistent) {values : List Value} :
    (r, values) ∈ e.tuples t ↔ r.page.table = t ∧ e.row r.page r.slot.toNat = some values := by
  unfold tuples
  simp only [List.mem_flatMap, he.mem_tuplesOn]
  constructor
  · rintro ⟨m, -, hpage, hrow⟩
    exact ⟨congrArg PageId.table hpage, hpage ▸ hrow⟩
  · rintro ⟨rfl, hrow⟩
    refine ⟨r.page.number, ?_, rfl, hrow⟩
    obtain ⟨rows, hrows⟩ := exists_rows_of_row hrow
    obtain ⟨f, hf⟩ := Option.ne_none_iff_exists'.1 (he.file?_ne_none hrows)
    have hn : e.numPages? r.page.table = some f.numPages := congrArg _ hf
    rw [pages_eq hn, List.mem_range, ← he.hasPage_iff hn]
    exact hasPage_of_ok hrows

/-- The first of two records comes first in a scan. -/
def Before (x y : RecordId × List Value) : Prop := x.1.position < y.1.position

theorem Consistent.pairwise_tuplesOn (he : e.Consistent) (p : PageId) : (e.tuplesOn p).Pairwise Before := by
  unfold tuplesOn
  cases hrows : e.content p with
  | error cause => exact .nil
  | ok rows =>
    have hlength := he.length_rows hrows
    have hsorted : rows.zipIdx.Pairwise fun x y => x.2 < y.2 := by
      rw [List.pairwise_iff_getElem]
      intro i j hi hj hlt
      simpa using hlt
    refine List.pairwise_filterMap.2 (hsorted.imp_of_mem fun {x y} hx hy hlt a ha b hb => ?_)
    have hx' := (List.snd_lt_of_mem_zipIdx hx).trans_le (by omega : _ ≤ 65536)
    have hy' := (List.snd_lt_of_mem_zipIdx hy).trans_le (by omega : _ ≤ 65536)
    obtain ⟨_, -, rfl⟩ := Option.map_eq_some_iff.1 ha
    obtain ⟨_, -, rfl⟩ := Option.map_eq_some_iff.1 hb
    refine Position.lt_iff.2 (Or.inr ⟨rfl, ?_⟩)
    rw [RecordId.position, RecordId.position, HeapPage.toNat_recordId hx', HeapPage.toNat_recordId hy']
    exact hlt

theorem Consistent.pairwise_tuples (he : e.Consistent) (t : TableId) : (e.tuples t).Pairwise Before := by
  unfold tuples
  have hsorted : (e.pages t).Pairwise (· < ·) := by
    unfold pages
    split
    · exact List.pairwise_lt_range
    · exact .nil
  refine List.pairwise_flatMap.2 ⟨fun m _ => he.pairwise_tuplesOn _, hsorted.imp fun {m m'} hlt x hx y hy => ?_⟩
  have hpage := (he.mem_tuplesOn.1 hx).1
  have hpage' := (he.mem_tuplesOn.1 hy).1
  refine Position.lt_iff.2 (Or.inl ?_)
  rw [RecordId.position, RecordId.position, hpage, hpage']
  exact hlt

/-! ### What is left to a scan -/

/-- The tuples of the table that a scan at this position has not passed. -/
structure Lists (e : Engine) (t : TableId) (x : Position) (xs : List (RecordId × List Value)) : Prop where
  sorted : xs.Pairwise Before
  mem : ∀ r values, (r, values) ∈ xs ↔
    r.page.table = t ∧ x ≤ r.position ∧ e.row r.page r.slot.toNat = some values

variable {x y : Position} {xs : List (RecordId × List Value)} {values : List Value}

theorem Consistent.lists (he : e.Consistent) (t : TableId) : Lists e t ⟨0, 0⟩ (e.tuples t) where
  sorted := he.pairwise_tuples t
  mem _ _ := he.mem_tuples.trans (and_congr_right fun _ => (and_iff_right (Position.zero_le _)).symm)

/-- A scan that goes on over an empty stretch passes no tuple. -/
theorem Lists.of_void (h : Lists e t x xs) (hforward : x ≤ y) (hvoid : e.Void t x y) : Lists e t y xs where
  sorted := h.sorted
  mem _ _ := by
    rw [h.mem]
    refine and_congr_right fun hr => ⟨fun ⟨hx, hrow⟩ => ⟨?_, hrow⟩, fun ⟨hy, hrow⟩ => ⟨hforward.trans hy, hrow⟩⟩
    exact hvoid.le_position hr (by rw [Stores, hrow]; rfl) hx

theorem Lists.of_rows (h : Lists e t x xs)
    (hrows : ∀ r : RecordId, x ≤ r.position → e'.row r.page r.slot.toNat = e.row r.page r.slot.toNat) :
    Lists e' t x xs where
  sorted := h.sorted
  mem r _ := by
    rw [h.mem]
    exact and_congr_right fun _ => and_congr_right fun hx => by rw [hrows r hx]

theorem Lists.fresh (h : Lists e t x ((r, values) :: xs)) (values' : List Value) : (r, values') ∉ xs := fun hmem =>
  lt_irrefl r.position ((List.pairwise_cons.1 h.sorted).1 _ hmem)

/-- What is found at the position is the head of the list. -/
theorem Lists.head {r' : RecordId} {values' : List Value} (h : Lists e t r'.position ((r, values) :: xs))
    (hr' : r'.page.table = t) (hrow : e.row r'.page r'.slot.toNat = some values') : r' = r ∧ values' = values := by
  have hmem := (h.mem r' values').2 ⟨hr', le_refl _, hrow⟩
  obtain heq | hrest := List.mem_cons.1 hmem
  · exact Prod.mk.inj heq
  · have hlt : r.position < r'.position := (List.pairwise_cons.1 h.sorted).1 _ hrest
    exact absurd ((h.mem r values).1 List.mem_cons_self).2.1 (not_le_of_gt hlt)

theorem Lists.tail (h : Lists e t r.position ((r, values) :: xs)) :
    Lists e t ⟨r.position.page, r.position.slot + 1⟩ xs where
  sorted := (List.pairwise_cons.1 h.sorted).2
  mem r' values' := by
    rw [Position.next_slot_le_iff]
    constructor
    · intro hmem
      obtain ⟨htable, -, hrow⟩ := (h.mem r' values').1 (List.mem_cons_of_mem _ hmem)
      exact ⟨htable, (List.pairwise_cons.1 h.sorted).1 _ hmem, hrow⟩
    · rintro ⟨htable, hlt, hrow⟩
      obtain heq | hrest := List.mem_cons.1 ((h.mem r' values').2 ⟨htable, le_of_lt hlt, hrow⟩)
      · exact absurd hlt (by rw [(Prod.mk.inj heq).1]; exact lt_irrefl _)
      · exact hrest

end Engine

namespace Scan

variable {e e' : Engine} {t : TableId} {txn : TxnId} {n : Nat} {size : List String → Nat} {s : Scan} {r : RecordId}
  {values : List Value} {xs : List (RecordId × List Value)}

theorem settles_hasNext_lists (h : WorksAlone s.txn t n size e) (hfile : e.catalog.file t = .ok s.file)
    (hopen : s.isOpen = true) (hlists : Lists e t s.position xs) :
    Settles s.hasNext e fun answer e' => WorksAlone s.txn t n size e' ∧ e.Keeps e' ∧
      ∃ pos', answer = (.ok (!xs.isEmpty), { s with position := pos' }) ∧ Lists e' t pos' xs := by
  apply ((settles_hasNext_alone h hfile).and (settles_hasNext_rows h.toConsistent hfile)).mono
  rintro ⟨result, s'⟩ e' ⟨⟨halone, more, rfl⟩, hquiet, pos', rfl, hforward, hvoid, hmore, -⟩
  refine ⟨halone, hquiet.toKeeps, pos', ?_, ?_⟩
  · have hsome : more = true ↔ xs ≠ [] := by
      rw [hmore more rfl, and_iff_right hopen]
      constructor
      · rintro ⟨r, hr, hpos, hstored⟩
        obtain ⟨values, hrow⟩ := Option.isSome_iff_exists.1 hstored
        exact List.ne_nil_of_mem ((hlists.mem r values).2 ⟨hr, hpos, hrow⟩)
      · intro hne
        obtain ⟨⟨r, values⟩, hmem⟩ := List.exists_mem_of_ne_nil xs hne
        obtain ⟨hr, hpos, hrow⟩ := (hlists.mem r values).1 hmem
        exact ⟨r, hr, hpos, by rw [Stores, hrow]; rfl⟩
    have hmore' : more = !xs.isEmpty := by
      rw [Bool.eq_iff_iff, hsome]
      simp
    rw [hmore']
  · exact (hlists.of_void hforward hvoid).of_rows fun r _ => row_congr (hquiet.content _) _

theorem settles_next_lists (h : WorksAlone s.txn t n size e) (hfile : e.catalog.file t = .ok s.file)
    (hopen : s.isOpen = true) (hlists : Lists e t s.position ((r, values) :: xs)) :
    Settles s.next e fun answer e' => WorksAlone s.txn t n size e' ∧ e.Keeps e' ∧
      ∃ tuple pos', answer = (.ok tuple, { s with position := pos' }) ∧ tuple.recordId = some r ∧
        tuple.values = values ∧ e'.cache.isCached r.page = true ∧ r.position < pos' ∧ Lists e' t pos' xs := by
  apply ((settles_next_alone h hfile hopen).and (settles_next_rows h.toConsistent hfile)).mono
  rintro ⟨result, s'⟩ e' ⟨⟨halone, hcached⟩, hquiet, pos', hforward, hvoid, hnext⟩
  obtain ⟨hr, hpos, hrow⟩ := (hlists.mem r values).1 List.mem_cons_self
  cases result with
  | error cause =>
    -- The scan is not at its end, as a tuple is left.
    obtain ⟨-, hnothing⟩ := hnext.2.1 hcached
    exact absurd (by rw [Stores, hrow]; rfl) (not_stores_of_rowAt hr (hnothing r.position hpos))
  | ok tuple =>
    obtain ⟨rfl, hfound, r', hid, hr', rfl⟩ := hnext
    have hhere := hlists.of_void hforward hvoid
    obtain ⟨rfl, rfl⟩ := hhere.head hr' (hr' ▸ hfound)
    subst hr
    refine ⟨halone, hquiet.toKeeps, tuple, _, rfl, hid, rfl, hcached, ?_, ?_⟩
    · exact Position.lt_next_slot_iff.2 (le_refl _)
    · exact hhere.tail.of_rows fun r _ => row_congr (hquiet.content _) _

/-! ### The sweep -/

/-- A tuple as it is listed. -/
def listed (tuple : Tuple) : Option RecordId × List Value := (tuple.recordId, tuple.values)

theorem recordId_ne_of_listed {given : List Tuple} (hgiven : given.map listed = xs.map fun x => (some x.1, x.2))
    (hfresh : ∀ values, (r, values) ∉ xs) : ∀ tuple ∈ given, tuple.recordId ≠ some r := by
  intro tuple htuple hid
  have hmem : listed tuple ∈ xs.map fun x => (some x.1, x.2) := hgiven ▸ List.mem_map_of_mem htuple
  obtain ⟨⟨r', values⟩, hmem, heq⟩ := List.mem_map.1 hmem
  obtain rfl : r' = r := Option.some.inj ((Prod.mk.inj heq).1.trans hid)
  exact hfresh values hmem

/-- What a sweep that gave these tuples comes to: the doomed ones are gone, and nothing else changed. -/
structure Swept (doomed : Tuple → Bool) (given : List Tuple) (t : TableId) (e e' : Engine) : Prop where
  elsewhere : ∀ q : PageId, q.table ≠ t → e'.content q = e.content q
  gone : ∀ tuple ∈ given, doomed tuple = true → ∀ r, tuple.recordId = some r → e'.row r.page r.slot.toNat = none
  spared : ∀ r, (∀ tuple ∈ given, tuple.recordId = some r → doomed tuple = false) →
    e'.row r.page r.slot.toNat = e.row r.page r.slot.toNat

theorem Swept.of_keeps {doomed : Tuple → Bool} {given : List Tuple} {e₁ : Engine} (hkeeps : e.Keeps e₁)
    (h : Swept doomed given t e₁ e') : Swept doomed given t e e' where
  elsewhere q hq := (h.elsewhere q hq).trans (hkeeps.content q)
  gone := h.gone
  spared r hr := (h.spared r hr).trans (row_congr (hkeeps.content _) _)

theorem Swept.cons {doomed : Tuple → Bool} {given : List Tuple} {tuple : Tuple} {e₁ : Engine}
    (hid : tuple.recordId = some r) (hr : r.page.table = t) (hstruck : Struck (doomed tuple) r e e₁)
    (hnew : ∀ later ∈ given, later.recordId ≠ some r) (h : Swept doomed given t e₁ e') :
    Swept doomed (tuple :: given) t e e' where
  elsewhere q hq := (h.elsewhere q hq).trans (hstruck.elsewhere q fun heq => hq (heq ▸ hr))
  gone later hlater hdoomed r' hr' := by
    obtain rfl | hrest := List.mem_cons.1 hlater
    · obtain rfl := Option.some.inj (hid.symm.trans hr')
      rw [h.spared r fun later hlater hsame => absurd hsame (hnew later hlater), hstruck.self, if_pos hdoomed]
    · exact h.gone later hrest hdoomed r' hr'
  spared r' hall := by
    rw [h.spared r' fun later hlater => hall later (List.mem_cons_of_mem _ hlater)]
    by_cases hsame : r' = r
    · subst hsame
      rw [hstruck.self, hall tuple List.mem_cons_self hid]
      rfl
    · exact hstruck.others r' hsame

/-- A round takes the first tuple that is left. The rest is behind it, so a delete does not concern it. -/
theorem settles_round (h : WorksAlone s.txn t n size e) (hfile : e.catalog.file t = .ok s.file)
    (hopen : s.isOpen = true) (hlists : Lists e t s.position ((r, values) :: xs)) (doomed : Tuple → Bool) :
    Settles (s.round doomed) e fun answer e' => WorksAlone s.txn t n size e' ∧
      ∃ tuple pos', answer = (([tuple], none), { s with position := pos' }) ∧ listed tuple = (some r, values) ∧
        Struck (doomed tuple) r e e' ∧ Lists e' t pos' xs := by
  unfold round
  rw [settles_bind]
  apply (settles_next_lists h hfile hopen hlists).mono
  rintro _ e₁ ⟨halone, hkeeps, tuple, pos', rfl, hid, rfl, hcached, hpassed, hlists₁⟩
  obtain ⟨hr, -, hrow⟩ := (hlists.mem r tuple.values).1 List.mem_cons_self
  dsimp only
  rw [settles_bind, settles_run]
  apply (halone.ends_strike doomed hid hr hcached ((row_congr (hkeeps.content _) _).trans hrow)).mono_ok
  rintro - e' ⟨halone', hstruck⟩
  refine ⟨halone', tuple, pos', rfl, by rw [listed, hid], hstruck.after_keeps hkeeps, hlists₁.of_rows fun r' hr' => ?_⟩
  exact hstruck.others r' fun heq => not_le_of_gt hpassed (heq ▸ hr')

/-- The sweep gives the tuples that are left, one after the other, and comes to the end of the scan. -/
theorem settles_sweep (h : WorksAlone s.txn t n size e) (hfile : e.catalog.file t = .ok s.file)
    (hopen : s.isOpen = true) (hlists : Lists e t s.position xs) (doomed : Tuple → Bool) {rounds : Nat}
    (hrounds : xs.length < rounds) :
    Settles (s.sweep doomed rounds) e fun answer e' => WorksAlone s.txn t n size e' ∧
      ∃ given, answer.1 = (given, .atEnd) ∧ given.map listed = xs.map (fun x => (some x.1, x.2)) ∧
        Swept doomed given t e e' := by
  induction xs generalizing e s rounds with
  | nil =>
    obtain ⟨rounds, rfl⟩ := Nat.exists_eq_add_one.2 hrounds
    rw [sweep, settles_bind]
    apply (settles_hasNext_lists h hfile hopen hlists).mono
    rintro _ e₁ ⟨halone, hkeeps, pos', rfl, -⟩
    exact ⟨halone, [], rfl, rfl, fun q _ => hkeeps.content q, nofun,
      fun r _ => row_congr (hkeeps.content _) _⟩
  | cons x xs ih =>
    obtain ⟨r, values⟩ := x
    obtain ⟨rounds, rfl⟩ := Nat.exists_eq_add_one.2 (Nat.zero_lt_of_lt hrounds)
    have hr := ((hlists.mem r values).1 List.mem_cons_self).1
    rw [sweep, settles_bind]
    apply (settles_hasNext_lists h hfile hopen hlists).mono
    rintro _ e₁ ⟨halone₁, hkeeps, pos₁, rfl, hlists₁⟩
    have hfile₁ : e₁.catalog.file t = .ok s.file := hkeeps.catalog ▸ hfile
    simp only [List.isEmpty_cons, Bool.not_false, settles_bind]
    apply (settles_round (s := { s with position := pos₁ }) halone₁ hfile₁ hopen hlists₁ doomed).mono
    rintro _ e₂ ⟨halone₂, tuple, pos₂, rfl, hlisted, hstruck, hlists₂⟩
    have hfile₂ : e₂.catalog.file t = .ok s.file := hstruck.catalog ▸ hfile₁
    dsimp only
    rw [settles_bind]
    apply (ih (s := { s with position := pos₂ }) halone₂ hfile₂ hopen hlists₂ (Nat.lt_of_succ_lt_succ hrounds)).mono
    rintro ⟨_, s'⟩ e' ⟨halone, rest, rfl, hrest, hswept⟩
    have hnew : ∀ later ∈ rest, later.recordId ≠ some r := recordId_ne_of_listed hrest hlists.fresh
    refine ⟨halone, tuple :: rest, rfl, ?_, (hswept.cons (Prod.mk.inj hlisted).1 hr hstruck hnew).of_keeps hkeeps⟩
    rw [List.map_cons, List.map_cons, hlisted, hrest]

section

variable {doomed : Tuple → Bool} {given : List Tuple}

/-- If the tuples of the table were given, those that are left are the ones that were not doomed. -/
theorem Swept.mem_tuples (h : Swept doomed given t e e') (he : e.Consistent) (he' : e'.Consistent)
    (hgiven : given.map listed = (e.tuples t).map fun x => (some x.1, x.2)) :
    (r, values) ∈ e'.tuples t ↔ ∃ tuple ∈ given, doomed tuple = false ∧ listed tuple = (some r, values) := by
  have hlisted : ∀ r values, (r, values) ∈ e.tuples t ↔ ∃ tuple ∈ given, listed tuple = (some r, values) := by
    intro r values
    rw [← List.mem_map, hgiven]
    simp
  have hnodup : (given.map (·.recordId)).Nodup := by
    have hrecords : given.map (·.recordId) = (e.tuples t).map fun x => some x.1 := by
      simpa [listed, Function.comp_def] using congrArg (List.map Prod.fst) hgiven
    rw [hrecords, List.Nodup, List.pairwise_map]
    refine (he.pairwise_tuples t).imp fun {x y} hbefore heq => ?_
    rw [Before, Option.some.inj heq] at hbefore
    exact lt_irrefl _ hbefore
  rw [he'.mem_tuples]
  constructor
  · rintro ⟨hr, hrow⟩
    have hspared : ∀ tuple ∈ given, tuple.recordId = some r → doomed tuple = false := by
      intro tuple htuple hid
      rw [← Bool.not_eq_true]
      intro hdoomed
      rw [h.gone tuple htuple hdoomed r hid] at hrow
      simp at hrow
    have hbefore := he.mem_tuples.2 ⟨hr, (h.spared r hspared).symm.trans hrow⟩
    obtain ⟨tuple, htuple, heq⟩ := (hlisted r values).1 hbefore
    exact ⟨tuple, htuple, hspared tuple htuple (Prod.mk.inj heq).1, heq⟩
  · rintro ⟨tuple, htuple, hdoomed, heq⟩
    obtain ⟨hr, hrow⟩ := he.mem_tuples.1 ((hlisted r values).2 ⟨tuple, htuple, heq⟩)
    refine ⟨hr, (h.spared r fun tuple' htuple' hid => ?_).trans hrow⟩
    have hsame : tuple' = tuple :=
      List.inj_on_of_nodup_map hnodup htuple' htuple (hid.trans (Prod.mk.inj heq).1.symm)
    rw [hsame, hdoomed]

instance : Std.Irrefl Before := ⟨fun x => lt_irrefl x.1.position⟩

instance : Std.Antisymm Before := ⟨fun _ _ hxy hyx => absurd hxy (lt_asymm hyx)⟩

theorem Swept.tuples (h : Swept doomed given t e e') (he : e.Consistent) (he' : e'.Consistent)
    (hgiven : given.map listed = (e.tuples t).map fun x => (some x.1, x.2)) :
    (given.filter fun tuple => !doomed tuple).map listed = (e'.tuples t).map fun x => (some x.1, x.2) := by
  have hsublist : List.Sublist ((given.filter fun tuple => !doomed tuple).map listed)
      ((e.tuples t).map fun x => (some x.1, x.2)) := hgiven ▸ List.filter_sublist.map listed
  obtain ⟨kept, hkept, heq⟩ := List.sublist_map_iff.1 hsublist
  have hmem : ∀ x, x ∈ kept ↔ x ∈ e'.tuples t := by
    rintro ⟨r, values⟩
    have hkeptmem : (r, values) ∈ kept ↔ (some r, values) ∈ kept.map fun x => (some x.1, x.2) := by simp
    rw [h.mem_tuples he he' hgiven, hkeptmem, ← heq]
    simp [and_assoc]
  rw [heq, ((he.pairwise_tuples t).sublist hkept).eq_of_mem_iff (he'.pairwise_tuples t) hmem]

end

end Scan

/-- **Deleting while scanning.** A transaction works alone in the engine, the pool has place for a page, and nobody
holds one. The transaction goes through a table whose pages can be read, and deletes the doomed tuples as it comes to
them. Whatever the table holds and whichever tuples are doomed, the loop comes to the end of the scan, and nothing fails
on the way. It gives each tuple of the table once, in order. Those that were not doomed are left, at their old records;
other tables stay as they are, and no file gets longer or shorter. -/
theorem Engine.Pooled.sweep_exact {e : Engine} {t : TableId} {s : Scan} (h : e.Pooled)
    (hfile : e.catalog.file t = .ok s.file) (hopen : s.isOpen = true) (hstart : s.position = ⟨0, 0⟩)
    (hroom : 0 < e.cache.capacity) (hunheld : ∀ o, e.cache.holders o = 0) (hlocks : LockTable.UsedBy s.txn e.locks)
    (hreadable : ∀ m ∈ e.pages t, ∃ rows, e.content ⟨t, m⟩ = .ok rows) (doomed : Tuple → Bool) {rounds : Nat}
    (hrounds : (e.tuples t).length < rounds) :
    ∃ given s' e', (s.sweep doomed rounds).run e = (((given, .atEnd), s'), e') ∧
      given.map Scan.listed = (e.tuples t).map (fun x => (some x.1, x.2)) ∧
      (given.filter fun tuple => !doomed tuple).map Scan.listed = (e'.tuples t).map (fun x => (some x.1, x.2)) ∧
      (∀ q : PageId, q.table ≠ t → e'.content q = e.content q) ∧
      e'.numPages? t = e.numPages? t ∧
      ∀ file, (e'.store.disk.contents file).length = (e.store.disk.contents file).length := by
  have he := h.consistent
  obtain ⟨f, -, -, hf⟩ := he.exists_file hfile
  have hn : e.numPages? t = some f.numPages := congrArg _ hf
  rw [pages_eq hn] at hreadable
  have halone : WorksAlone s.txn t f.numPages e.fileLength e :=
    ⟨he, ⟨h.bounded, hroom, hunheld⟩, hlocks, hn, fun m hm => hreadable m (List.mem_range.2 hm), fun _ => rfl⟩
  have hsweep := Scan.settles_sweep halone hfile hopen (hstart ▸ he.lists t) doomed hrounds
  unfold Settles at hsweep
  obtain ⟨halone', given, hanswer, hgiven, hswept⟩ := hsweep
  exact ⟨given, _, _, Prod.ext (Prod.ext hanswer rfl) rfl, hgiven, hswept.tuples he halone'.toConsistent hgiven,
    hswept.elsewhere, halone'.numPages.trans hn.symm, halone'.sizes⟩

namespace Sample

/-- Two pages with a tuple each, in a pool of one page; nobody holds a lock. -/
def restedWords : Engine := (Call.commit 1).after twoWords

theorem pooled_restedWords : Pooled restedWords :=
  .event (.call (.commit 1)) (.event (.call insertPear) pooled_oneWord trivial) trivial

def isApple (tuple : Tuple) : Bool := tuple.values = apple.values

set_option maxRecDepth 50000 in
theorem restedWords_eq :
    (restedWords.catalog.file 0 = .ok 0 ∧ restedWords.numPages? 0 = some 2 ∧ restedWords.cache.capacity = 1) ∧
      (restedWords.content ⟨0, 0⟩ = .ok [some apple.values] ∧ restedWords.content ⟨0, 1⟩ = .ok [some pear.values]) ∧
      (∀ frame ∈ restedWords.cache.frames.toList, frame.2.holders = 0) ∧
      restedWords.locks.pages.isEmpty = true := by decide +kernel

theorem unheld_restedWords (o : Nat) : restedWords.cache.holders o = 0 := by
  rw [Cache.holders]
  cases hframe : restedWords.cache.frames[o]? with
  | none => rfl
  | some frame =>
    exact restedWords_eq.2.2.1 (o, frame) (Std.ExtTreeMap.mem_toList_iff_getElem?_eq_some.2 hframe)

theorem usedBy_restedWords (txn : TxnId) : LockTable.UsedBy txn restedWords.locks := by
  have hlocks : ∀ q, restedWords.locks.locks q = {} := fun q => by
    rw [LockTable.locks, Std.ExtTreeMap.isEmpty_iff.1 restedWords_eq.2.2.2, Std.ExtTreeMap.getD_empty]
  constructor
  · intro q u hu
    rw [LockTable.holds, LockTable.mode?, hlocks] at hu
    simp at hu
  · intro q r hr
    rw [hlocks] at hr
    exact absurd hr List.not_mem_nil

theorem tuples_restedWords :
    restedWords.tuples 0 = [(⟨⟨0, 0⟩, 0⟩, apple.values), (⟨⟨0, 1⟩, 0⟩, pear.values)] := by
  obtain ⟨⟨-, hn, -⟩, ⟨hfirst, hsecond⟩, -⟩ := restedWords_eq
  rw [tuples_of_numPages hn, List.range_succ, List.range_one, List.flatMap_append, List.flatMap_singleton,
    List.flatMap_singleton, tuplesOn_of_content hfirst, tuplesOn_of_content hsecond]
  rfl

end Sample

/-- Both pages go through the only place of the pool; the first tuple is deleted on the way. -/
theorem sweep_exact_of_two_words :
    ∃ given s' e', ((Scan.ofFile 0 2).opened.sweep Sample.isApple 3).run Sample.restedWords =
        (((given, .atEnd), s'), e') ∧
      given.map Scan.listed = [(some ⟨⟨0, 0⟩, 0⟩, [.string "apple"]), (some ⟨⟨0, 1⟩, 0⟩, [.string "pear"])] ∧
      e'.tuples 0 = [(⟨⟨0, 1⟩, 0⟩, [.string "pear"])] ∧ e'.numPages? 0 = some 2 := by
  obtain ⟨⟨hfile, hn, hcapacity⟩, ⟨hfirst, hsecond⟩, -⟩ := Sample.restedWords_eq
  have hreadable : ∀ m ∈ Sample.restedWords.pages 0, ∃ rows, Sample.restedWords.content ⟨0, m⟩ = .ok rows := by
    rw [pages_eq hn]
    simp [List.range_succ, hfirst, hsecond]
  obtain ⟨given, s', e', hrun, hgiven, hleft, -, hpages, -⟩ :=
    Sample.pooled_restedWords.sweep_exact (s := (Scan.ofFile 0 2).opened) hfile rfl rfl (hcapacity ▸ Nat.one_pos)
      Sample.unheld_restedWords (Sample.usedBy_restedWords 2) hreadable Sample.isApple
      (show _ < 3 by rw [Sample.tuples_restedWords]; decide)
  rw [Sample.tuples_restedWords] at hgiven
  have hspared : (given.filter fun tuple => !Sample.isApple tuple).map Scan.listed =
      [(some ⟨⟨0, 1⟩, 0⟩, [.string "pear"])] := by
    have hfilter : (given.map Scan.listed).filter (fun x => !decide (x.2 = Sample.apple.values)) =
        (given.filter fun tuple => !Sample.isApple tuple).map Scan.listed := List.filter_map
    rw [← hfilter, hgiven]
    decide
  obtain ⟨x, hx, hpear⟩ := List.map_eq_singleton_iff.1 (hleft.symm.trans hspared)
  obtain ⟨hrecord, hvalues⟩ := Prod.mk.inj hpear
  refine ⟨given, s', e', hrun, hgiven, ?_, hpages.trans hn⟩
  rw [hx, ← Option.some.inj hrecord, ← hvalues]

end HeapStore
