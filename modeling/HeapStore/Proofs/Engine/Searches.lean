import HeapStore.Proofs.Engine.Calls
import HeapStore.Proofs.Engine.Moves
import HeapStore.Proofs.Engine.Places
import HeapStore.Proofs.Page.Changes
import HeapStore.Proofs.Page.Views
import Mathlib.Data.Prod.Lex

/-!
# What a search finds

Positions in a table are in the order of its pages, and on a page in the order of its slots. A search goes forward
over positions where nothing is stored, and ends at a stored tuple, behind the last page, or where a page
could not be had (`Scan.Sought`, `Engine.Withholds`). This is said of one page (`Scan.settles_look_rows`), of a search
(`Scan.settles_search_rows`) and of a scan of a table's file (`Scan.settles_seek_rows`).
-/

namespace HeapStore

/-! ### Positions -/

namespace Position

/-- Pages come first, then slots. -/
def key (x : Position) : ℕ ×ₗ ℕ := toLex (x.page, x.slot)

theorem key_injective : Function.Injective key := fun x y h => by
  cases x
  cases y
  simpa [key] using h

instance : LinearOrder Position := LinearOrder.lift' key key_injective

variable {x y : Position}

theorem le_iff : x ≤ y ↔ x.page < y.page ∨ x.page = y.page ∧ x.slot ≤ y.slot := Prod.Lex.toLex_le_toLex

theorem lt_iff : x < y ↔ x.page < y.page ∨ x.page = y.page ∧ x.slot < y.slot := Prod.Lex.toLex_lt_toLex

/-- Nothing stands between a slot and the next one. -/
theorem lt_next_slot_iff : y < ⟨x.page, x.slot + 1⟩ ↔ y ≤ x := by
  rw [lt_iff, le_iff, Nat.lt_succ_iff]

theorem next_slot_le_iff : (⟨x.page, x.slot + 1⟩ : Position) ≤ y ↔ x < y := by
  rw [← not_lt, lt_next_slot_iff, not_le]

/-- Nothing stands between a page and the next one. -/
theorem lt_next_page_iff : y < ⟨x.page + 1, 0⟩ ↔ y.page ≤ x.page := by
  rw [lt_iff]
  simp only [Nat.not_lt_zero, and_false, or_false, Nat.lt_succ_iff]

theorem of_le_of_lt {slot : Nat} (h : x ≤ y) (h' : y < ⟨x.page, slot⟩) :
    y.page = x.page ∧ x.slot ≤ y.slot ∧ y.slot < slot := by
  have hle := le_iff.1 h
  have hlt := lt_iff.1 h'
  dsimp only at hlt
  omega

theorem zero_le (x : Position) : (⟨0, 0⟩ : Position) ≤ x := by
  rw [le_iff]
  simp only [Nat.zero_le, and_true]
  exact (Nat.eq_zero_or_pos x.page).symm.imp id Eq.symm

end Position

namespace RecordId

/-- Where a scan of the table comes to the record. -/
def position (r : RecordId) : Position := ⟨r.page.number, r.slot.toNat⟩

theorem eq_of_position {r r' : RecordId} (htable : r.page.table = r'.page.table) (h : r.position = r'.position) :
    r = r' := by
  obtain ⟨⟨t, n⟩, slot⟩ := r
  obtain ⟨⟨t', n'⟩, slot'⟩ := r'
  obtain ⟨hnumber, hslot⟩ := Position.mk.injEq .. ▸ h
  rw [RecordId.mk.injEq, PageId.mk.injEq]
  exact ⟨⟨htable, hnumber⟩, UInt16.toNat_inj.1 hslot⟩

end RecordId

namespace Engine

/-- What is stored at a position of a table. -/
def rowAt (e : Engine) (t : TableId) (x : Position) : Option (List Value) := e.row ⟨t, x.page⟩ x.slot

/-- Nothing is stored from one position on up to another one. -/
def Void (e : Engine) (t : TableId) (x y : Position) : Prop := ∀ z, x ≤ z → z < y → e.rowAt t z = none

variable {e e' : Engine} {t : TableId} {x y z : Position} {txn : TxnId} {f : HeapFile}

theorem void_refl (e : Engine) (t : TableId) (x : Position) : e.Void t x x :=
  fun _ hz hz' => absurd hz' (not_lt_of_ge hz)

theorem Void.trans (h : e.Void t x y) (h' : e.Void t y z) : e.Void t x z := fun w hw hw' =>
  (lt_or_ge w y).elim (h w hw) fun hge => h' w hge hw'

theorem row_congr {p : PageId} (h : e'.content p = e.content p) (slot : Nat) : e'.row p slot = e.row p slot := by
  rw [row, row, h]

theorem Keeps.rowAt (h : e.Keeps e') (t : TableId) (x : Position) : e'.rowAt t x = e.rowAt t x :=
  row_congr (h.content _) x.slot

theorem row_of_copy {p : PageId} {page : HeapPage} (h : e.cache.copy? p = some page) (slot : Nat) :
    e.row p slot = (page.tuple? slot).map (·.values) := by
  rw [row, content_of_copy h, page.values_tuple?]

theorem Consistent.exists_file (he : e.Consistent) {fd : Descriptor} (h : e.catalog.file t = .ok fd) :
    ∃ f, e.store.file? fd = some f ∧ f.table = t ∧ e.file? t = some f := by
  obtain ⟨entry, ht, rfl⟩ := exists_entry_of_file h
  obtain ⟨f, hf, htable, -⟩ := he.opened t entry ht
  exact ⟨f, hf, htable, (file?_of_entry ht).trans hf⟩

/-- Behind the last page of a table nothing is stored. -/
theorem Consistent.rowAt_eq_none (he : e.Consistent) (hf : e.file? t = some f) (hx : f.numPages ≤ x.page) :
    e.rowAt t x = none := by
  have hnot : ¬ f.Has ⟨t, x.page⟩ := fun h => Nat.not_lt.2 hx h.2
  rw [rowAt, row, he.content_of_not_has hf hnot]

/-! ### Pages that cannot be had -/

/-- Why a transaction may be refused a page: it does not get the lock, the pool has no place for the page, or the page
is not in the pool and its file does not give it. -/
inductive Withholds (e : Engine) (txn : TxnId) (p : PageId) : StorageError → Prop
  | locked : Withholds e txn p (.transactionAborted txn p)
  | full : Withholds e txn p .bufferPoolFull
  | faulty {cause : StorageError} (hcause : cause.isPageFault = true) (hcontent : e.content p = .error cause) :
      Withholds e txn p cause

variable {p : PageId} {cause : StorageError}

theorem Withholds.of_keeps (hkeeps : e.Keeps e') (h : e'.Withholds txn p cause) : e.Withholds txn p cause := by
  cases h with
  | locked => exact .locked
  | full => exact .full
  | faulty hcause hcontent => exact .faulty hcause ((hkeeps.content p).symm.trans hcontent)

theorem Withholds.ne_scanAtEnd (h : e.Withholds txn p cause) : cause ≠ .scanAtEnd := by
  rintro rfl
  cases h with
  | faulty hcause => simp [StorageError.scanAtEnd, StorageError.isPageFault] at hcause

end Engine

theorem Op.ends_getPage_cause {e : Engine} (he : e.Consistent) (txn : TxnId) (p : PageId) (access : Access) :
    Ends (Op.getPage txn p access) e (fun _ _ => True) fun cause _ => e.Withholds txn p cause := by
  unfold Op.getPage Op.holdsLock
  simp only [ends_bind, ends_get, ends_pure, ends_tryCatch]
  apply (Op.ends_lock e txn p access.lockMode).mono
  · rintro - - ⟨locks, rfl, -⟩
    have hlocked := he.keeps_locks locks
    apply (Op.ends_fetch_moves hlocked.consistent p).mono
    · exact fun _ _ _ => trivial
    · intro cause e' hfetch
      have hcause : e.Withholds txn p cause := by
        obtain ⟨rfl, -⟩ | ⟨-, hmissing, hstored⟩ := hfetch
        · exact .full
        · have hcontent : ({ e with locks } : Engine).content p = .error cause := by
            rw [Engine.content_of_not_cached (Cache.copy?_eq_none hmissing), hstored]
            rfl
          exact .of_keeps hlocked (.faulty (Engine.stored_fault hstored) hcontent)
      cases e.locks.holds p txn with
      | true => exact hcause
      | false => exact hcause
  · rintro cause - ⟨rfl, -⟩
    exact .locked

namespace Scan

open Engine

variable {e e' : Engine} {t : TableId} {txn : TxnId} {pos pos' : Position}

/-- What a search from a position on comes to for a transaction, and the position it ends at. -/
structure Sought (e : Engine) (t : TableId) (txn : TxnId) (pos : Position)
    (result : Except StorageError (Option Tuple)) (pos' : Position) : Prop where
  forward : pos ≤ pos'
  skipped : e.Void t pos pos'
  found : ∀ tuple, result = .ok (some tuple) → e.rowAt t pos' = some tuple.values ∧
    ∃ r, tuple.recordId = some r ∧ r.page.table = t ∧ r.position = pos'
  /-- A search that fails does so for the page that it has come to. -/
  failed : ∀ cause, result = .error cause → e.Withholds txn ⟨t, pos'.page⟩ cause

theorem Sought.of_void {result : Except StorageError (Option Tuple)} {x : Position} (hforward : pos ≤ x)
    (hvoid : e.Void t pos x) (h : Sought e t txn x result pos') : Sought e t txn pos result pos' :=
  ⟨hforward.trans h.forward, hvoid.trans h.skipped, h.found, h.failed⟩

theorem Sought.of_keeps {result : Except StorageError (Option Tuple)} (hkeeps : e.Keeps e')
    (h : Sought e' t txn pos result pos') : Sought e t txn pos result pos' :=
  ⟨h.forward, fun x hx hx' => (hkeeps.rowAt t x).symm.trans (h.skipped x hx hx'),
    fun tuple htuple => ⟨(hkeeps.rowAt t pos').symm.trans (h.found tuple htuple).1, (h.found tuple htuple).2⟩,
    fun cause hcause => (h.failed cause hcause).of_keeps hkeeps⟩

section Page

variable {page : HeapPage}

theorem void_of_nextUsed?_eq_none (hpage : page.WellFormed)
    (hrow : ∀ slot, e.row ⟨t, pos.page⟩ slot = (page.tuple? slot).map (·.values))
    (hnext : page.nextUsed? pos.slot = none) : e.Void t pos ⟨pos.page + 1, 0⟩ := by
  intro x hx hx'
  have hsame : x.page = pos.page := le_antisymm (Position.lt_next_page_iff.1 hx') (by
    rcases Position.le_iff.1 hx with h | h <;> omega)
  have hslot : pos.slot ≤ x.slot := by
    rcases Position.le_iff.1 hx with h | h <;> omega
  rw [rowAt, hsame, hrow, hpage.of_nextUsed?_eq_none hnext hslot, Option.map_none]

theorem sought_of_nextUsed?_eq_some (hpage : page.WellFormed) (hid : page.id = ⟨t, pos.page⟩)
    (hrow : ∀ slot, e.row ⟨t, pos.page⟩ slot = (page.tuple? slot).map (·.values)) {slot : Nat}
    (hnext : page.nextUsed? pos.slot = some slot) :
    Sought e t txn pos (.ok (page.tuple? slot)) ⟨pos.page, slot⟩ ∧ page.tuple? slot ≠ none := by
  obtain ⟨hle, ⟨tuple, htuple⟩, hfree⟩ := hpage.of_nextUsed?_eq_some hnext
  refine ⟨⟨Position.le_iff.2 (Or.inr ⟨rfl, hle⟩), ?_, ?_, by simp⟩, by simp [htuple]⟩
  · intro x hx hx'
    obtain ⟨hsame, hlo, hhi⟩ := Position.of_le_of_lt hx hx'
    rw [rowAt, hsame, hrow, hfree x.slot hlo hhi, Option.map_none]
  · intro tuple' hfound
    obtain rfl := Option.some.inj (htuple.symm.trans (Except.ok.inj hfound))
    have hslot : slot < 65536 := Nat.lt_trans (hpage.length_slots ▸ HeapPage.lt_of_tuple?_eq_some htuple)
      (slotsPerPage_lt _)
    refine ⟨?_, HeapPage.recordId page.id slot, (hpage.stored slot tuple htuple).2, by rw [hid]; rfl, ?_⟩
    · rw [rowAt, hrow, htuple, Option.map_some]
    · rw [RecordId.position, HeapPage.toNat_recordId hslot, hid]
      rfl

end Page

/-- On the page of its position the search ends, or it goes on because nothing is left on the page. -/
theorem settles_look_rows (he : e.Consistent) (t : TableId) (txn : TxnId) (pos : Position) :
    Settles (look t txn pos) e fun answer e' => Quiet txn e e' ∧
      match answer with
      | some (result, pos') => result ≠ .ok none ∧ Sought e t txn pos result pos'
      | none => e.Void t pos ⟨pos.page + 1, 0⟩ := by
  refine (settles_look he t txn pos).and ?_
  unfold look
  simp only [settles_bind, settles_get, settles_run, ends_bind]
  refine ((Op.ends_getPage he txn ⟨t, pos.page⟩ .readOnly).and
    (Op.ends_getPage_cause he txn ⟨t, pos.page⟩ .readOnly)).mono (fun h e₁ hget => ?_) fun cause e₁ hget => ?_
  · obtain ⟨⟨hquiet, hhandle, -⟩, -⟩ := hget
    obtain ⟨page, hpage, hcopy, hid⟩ := hquiet.consistent.sound.exists_copy hhandle
    obtain ⟨hwf, -⟩ := hquiet.consistent.fits _ page hcopy
    have hrow : ∀ slot, e.row ⟨t, pos.page⟩ slot = (page.tuple? slot).map (·.values) := fun slot =>
      (row_congr (hquiet.content _) slot).symm.trans (row_of_copy hcopy slot)
    rw [Op.ends_page hpage]
    cases hnext : page.nextUsed? pos.slot with
    | none =>
      simp only [Option.bind_none]
      -- Whether the lock of an empty page is given back makes no difference to what is stored.
      split
      · exact void_of_nextUsed?_eq_none hwf hrow hnext
      · exact void_of_nextUsed?_eq_none hwf hrow hnext
    | some slot =>
      obtain ⟨hsought, hsome⟩ := sought_of_nextUsed?_eq_some hwf hid hrow hnext
      obtain ⟨tuple, htuple⟩ := Option.ne_none_iff_exists'.1 hsome
      rw [htuple] at hsought
      simp only [Option.bind_some, htuple, Option.map_some]
      exact ⟨by simp, hsought⟩
  · exact ⟨by simp, le_refl pos, void_refl e t pos, by simp,
      fun cause' hsame => Except.error.inj hsame ▸ hget.2⟩

/-- A search that finds nothing has seen all its pages. -/
theorem settles_search_rows (he : e.Consistent) (t : TableId) (txn : TxnId) (pages : Nat) (pos : Position) :
    Settles (search t txn pages pos) e fun answer e' => Quiet txn e e' ∧ Sought e t txn pos answer.1 answer.2 ∧
      (answer.1 = .ok none → pos.page + pages ≤ answer.2.page) := by
  induction pages generalizing e pos with
  | zero =>
    rw [search, settles_pure]
    exact ⟨he.quiet_refl txn, ⟨le_refl pos, void_refl e t pos, by simp, by simp⟩, fun _ => Nat.le_refl _⟩
  | succ pages ih =>
    rw [search_succ, settles_bind]
    apply (settles_look_rows he t txn pos).mono
    rintro answer e₁ ⟨hquiet, hlook⟩
    cases answer with
    | some answer => exact ⟨hquiet, hlook.2, fun hnone => absurd hnone hlook.1⟩
    | none =>
      apply (ih hquiet.consistent ⟨pos.page + 1, 0⟩).mono
      rintro ⟨result, pos'⟩ e' ⟨hquiet', hsought, hpages⟩
      have hforward : pos ≤ ⟨pos.page + 1, 0⟩ := le_of_lt (Position.lt_next_page_iff.2 (Nat.le_refl _))
      refine ⟨hquiet.trans hquiet', (hsought.of_keeps hquiet.toKeeps).of_void hforward hlook, fun hnone => ?_⟩
      have hseen := hpages hnone
      dsimp only at hseen ⊢
      omega

/-- A scan of the table's file that comes to nothing has nothing before it. -/
theorem settles_seek_rows (he : e.Consistent) {s : Scan} (hfile : e.catalog.file t = .ok s.file) :
    Settles s.seek e fun answer e' => Quiet s.txn e e' ∧ answer.2 = { s with position := answer.2.position } ∧
      Sought e t s.txn s.position answer.1 answer.2.position ∧
      (answer.1 = .ok none → ∀ x, s.position ≤ x → e.rowAt t x = none) := by
  obtain ⟨f, hf, rfl, hopen⟩ := he.exists_file hfile
  unfold seek
  rw [settles_bind, settles_get, hf]
  dsimp only
  rw [settles_bind]
  apply (settles_search_rows he f.table s.txn (f.numPages - s.position.page) s.position).mono
  rintro ⟨result, pos'⟩ e' ⟨hquiet, hsought, hpages⟩
  refine ⟨hquiet, rfl, hsought, fun hnone x hx => ?_⟩
  rcases lt_or_ge x pos' with hbefore | hbehind
  · exact hsought.skipped x hx hbefore
  · have hseen := hpages hnone
    have hlast : f.numPages ≤ x.page := by
      rcases Position.le_iff.1 hbehind with h | h <;> dsimp only at hseen <;> omega
    exact he.rowAt_eq_none hopen hlast

end Scan

end HeapStore
