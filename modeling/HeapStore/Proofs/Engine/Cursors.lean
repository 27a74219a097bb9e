import HeapStore.Proofs.Engine.Runs
import HeapStore.Proofs.Engine.Searches
import Mathlib.Data.List.Induction
import Mathlib.Data.List.Infix
import Mathlib.Data.List.Nodup

/-!
# Scans while the table changes

A `Cursor` is a scan of a table on an engine, and what the scan gave so far. It goes on by what is asked of the scan
and by calls of whomever, which may change the table (`Scan.Event`). `Cursor.Ahead` are the records that are
stored and that the scan has not passed.

What is asked of the scan either leaves these records as they are or takes the first one of them away and gives it
(`Cursor.Kept`, `Cursor.Taken`). From this follows what holds of whole runs: the records that were given are in order
(`Cursor.InOrder.run`), and what the scan has passed without giving it was missing at some time
(`Cursor.mem_records`). They are put together in `Engine.Reachable.scan_exact`.
-/

namespace HeapStore

open Engine

/-- Is the slot of the record in use? -/
def Engine.Stores (e : Engine) (r : RecordId) : Prop := (e.row r.page r.slot.toNat).isSome = true

instance (e : Engine) (r : RecordId) : Decidable (e.Stores r) := inferInstanceAs (Decidable (_ = true))

variable {e e' : Engine} {t : TableId} {s : Scan}

theorem Engine.not_stores_of_rowAt {r : RecordId} (hr : r.page.table = t) (h : e.rowAt t r.position = none) :
    ¬ e.Stores r := by
  subst hr
  rw [Stores, show e.row r.page r.slot.toNat = none from h]
  simp

theorem Engine.Void.le_position {x y : Position} (h : e.Void t x y) {r : RecordId} (hr : r.page.table = t)
    (hstored : e.Stores r) (hx : x ≤ r.position) : y ≤ r.position := by
  by_contra hbefore
  exact not_stores_of_rowAt hr (h r.position hx (not_le.1 hbefore)) hstored

/-! ### What is asked of a scan -/

namespace Scan

theorem settles_hasNext_rows (he : e.Consistent) (hfile : e.catalog.file t = .ok s.file) :
    Settles s.hasNext e fun answer e' => Quiet s.txn e e' ∧ ∃ pos', answer.2 = { s with position := pos' } ∧
      s.position ≤ pos' ∧ e.Void t s.position pos' ∧
      (∀ more, answer.1 = .ok more →
        (more = true ↔ s.isOpen = true ∧ ∃ r : RecordId, r.page.table = t ∧ s.position ≤ r.position ∧ e.Stores r)) ∧
      ∀ cause, answer.1 = .error cause → e.Withholds s.txn ⟨t, pos'.page⟩ cause := by
  unfold hasNext
  split
  · next hclosed =>
    have hclosed : s.isOpen = false := by simpa using hclosed
    refine ⟨he.quiet_refl s.txn, s.position, rfl, le_refl _, void_refl e t _, fun more hmore => ?_, nofun⟩
    obtain rfl : false = more := Except.ok.inj hmore
    simp [hclosed]
  · next hopen =>
    have hopen : s.isOpen = true := by simpa using hopen
    rw [settles_bind]
    apply (settles_seek_rows he hfile).mono
    rintro ⟨result, s'⟩ e' ⟨hquiet, hscan, hsought, hnothing⟩
    cases result with
    | error cause =>
      exact ⟨hquiet, s'.position, hscan, hsought.forward, hsought.skipped, nofun,
        fun cause' hcause => Except.error.inj hcause ▸ hsought.failed cause rfl⟩
    | ok found =>
      refine ⟨hquiet, s'.position, hscan, hsought.forward, hsought.skipped, fun more hmore => ?_, nofun⟩
      obtain rfl : found.isSome = more := Except.ok.inj hmore
      cases found with
      | none =>
        have hvoid : ∀ r : RecordId, r.page.table = t → s.position ≤ r.position → ¬ e.Stores r :=
          fun r hr hpos => not_stores_of_rowAt hr (hnothing rfl r.position hpos)
        simpa using fun _ => hvoid
      | some tuple =>
        obtain ⟨hrow, r, -, rfl, hr⟩ := hsought.found tuple rfl
        have hstores : e.Stores r := by
          show (e.rowAt r.page.table r.position).isSome = true
          rw [hr, hrow]
          rfl
        simpa [hopen] using ⟨r, rfl, hr ▸ hsought.forward, hstores⟩

theorem settles_next_rows (he : e.Consistent) (hfile : e.catalog.file t = .ok s.file) :
    Settles s.next e fun answer e' => Quiet s.txn e e' ∧ ∃ pos', s.position ≤ pos' ∧ e.Void t s.position pos' ∧
      match answer.1 with
      | .ok tuple => answer.2 = { s with position := ⟨pos'.page, pos'.slot + 1⟩ } ∧
        e.rowAt t pos' = some tuple.values ∧ ∃ r, tuple.recordId = some r ∧ r.page.table = t ∧ r.position = pos'
      | .error cause => answer.2 = { s with position := pos' } ∧
        (cause = .scanAtEnd → s.isOpen = true ∧ ∀ x, s.position ≤ x → e.rowAt t x = none) ∧
        if s.isOpen then cause = .scanAtEnd ∨ e.Withholds s.txn ⟨t, pos'.page⟩ cause else cause = .scanNotOpen := by
  unfold next
  split
  · next hclosed =>
    have hclosed : s.isOpen = false := by simpa using hclosed
    refine ⟨he.quiet_refl s.txn, s.position, le_refl _, void_refl e t _, rfl, fun hend => ?_, by simp [hclosed]⟩
    simp [StorageError.scanNotOpen, StorageError.scanAtEnd] at hend
  · next hopen =>
    have hopen : s.isOpen = true := by simpa using hopen
    rw [settles_bind]
    apply (settles_seek_rows he hfile).mono
    rintro ⟨result, s'⟩ e' ⟨hquiet, hscan, hsought, hnothing⟩
    cases result with
    | error cause =>
      have hcause := hsought.failed cause rfl
      refine ⟨hquiet, s'.position, hsought.forward, hsought.skipped, hscan,
        fun hend => absurd hend hcause.ne_scanAtEnd, ?_⟩
      rw [if_pos hopen]
      exact Or.inr hcause
    | ok found =>
      cases found with
      | none =>
        refine ⟨hquiet, s'.position, hsought.forward, hsought.skipped, hscan, fun _ => ⟨hopen, hnothing rfl⟩, ?_⟩
        rw [if_pos hopen]
        exact Or.inl rfl
      | some tuple =>
        refine ⟨hquiet, s'.position, hsought.forward, hsought.skipped, ?_, hsought.found tuple rfl⟩
        show ({ s' with position := ⟨s'.position.page, s'.position.slot + 1⟩ } : Scan) = _
        rw [show s' = { s with position := s'.position } from hscan]

theorem owner_of_eq {s' : Scan} {pos : Position} (h : s' = { s with position := pos }) :
    s'.file = s.file ∧ s'.txn = s.txn := by
  rw [h]
  exact ⟨rfl, rfl⟩

/-- What can happen to a scan or to the engine that it is on. -/
inductive Event where
  | opened
  | closed
  | hasNext
  | next
  | call (c : Call)

end Scan

/-- A scan on an engine, and what it gave so far. -/
structure Cursor where
  engine : Engine
  scan : Scan
  /-- The tuples that were given, each with the engine as it was when the tuple was asked for. -/
  given : List (Engine × Tuple)

namespace Cursor

def after (c : Cursor) : Scan.Event → Cursor
  | .opened => { c with scan := c.scan.opened }
  | .closed => { c with scan := c.scan.closed }
  | .hasNext =>
    let ((_, scan), engine) := c.scan.hasNext.run c.engine
    { c with engine, scan }
  | .next =>
    match c.scan.next.run c.engine with
    | ((.ok tuple, scan), engine) => ⟨engine, scan, c.given ++ [(c.engine, tuple)]⟩
    | ((.error _, scan), engine) => { c with engine, scan }
  | .call k => { c with engine := k.after c.engine }

def run (c : Cursor) (events : List Scan.Event) : Cursor := events.foldl after c

/-- The records that were given, in the order in which they were. -/
def records (c : Cursor) : List RecordId := c.given.filterMap (·.2.recordId)

/-- Is the record stored, and has the scan not passed it? -/
def Ahead (c : Cursor) (t : TableId) (r : RecordId) : Prop :=
  r.page.table = t ∧ c.scan.position ≤ r.position ∧ c.engine.Stores r

/-- The scan is one of the table's file, on an engine that is consistent. -/
structure On (c : Cursor) (t : TableId) : Prop where
  consistent : c.engine.Consistent
  file : c.engine.catalog.file t = .ok c.scan.file

/-- Nothing was given, and no record was passed. -/
structure Kept (t : TableId) (c c' : Cursor) : Prop where
  given : c'.given = c.given
  ahead : ∀ r, c'.Ahead t r ↔ c.Ahead t r
  forward : c.scan.position ≤ c'.scan.position

/-- The first record ahead was given, as it is stored, and no other one was passed. -/
structure Taken (t : TableId) (r : RecordId) (tuple : Tuple) (c c' : Cursor) : Prop where
  given : c'.given = c.given ++ [(c.engine, tuple)]
  recordId : tuple.recordId = some r
  row : c.engine.row r.page r.slot.toNat = some tuple.values
  first : c.Ahead t r ∧ ∀ r', c.Ahead t r' → r.position ≤ r'.position
  ahead : ∀ r', c'.Ahead t r' ↔ c.Ahead t r' ∧ r' ≠ r
  forward : r.position < c'.scan.position

variable {c c' c₀ : Cursor} {r : RecordId} {tuple : Tuple} {events : List Scan.Event}

/-! ### One step -/

/-- A scan that went on over an empty stretch has passed no record. -/
theorem kept_of_void {pos' : Position} (hscan : c'.scan.position = pos') (hgiven : c'.given = c.given)
    (hforward : c.scan.position ≤ pos') (hvoid : c.engine.Void t c.scan.position pos')
    (hkeeps : c.engine.Keeps c'.engine) : Kept t c c' := by
  refine ⟨hgiven, fun r => ?_, hscan ▸ hforward⟩
  unfold Ahead Stores
  rw [row_congr (hkeeps.content r.page), hscan]
  exact and_congr_right fun hr =>
    ⟨fun h => ⟨hforward.trans h.1, h.2⟩, fun h => ⟨hvoid.le_position hr h.2 h.1, h.2⟩⟩

/-- A scan that gave the tuple behind an empty stretch has taken the first record ahead. -/
theorem taken_of_void (hid : tuple.recordId = some r) (hr : r.page.table = t)
    (hrow : c.engine.rowAt t r.position = some tuple.values) (hforward : c.scan.position ≤ r.position)
    (hvoid : c.engine.Void t c.scan.position r.position)
    (hscan : c'.scan.position = ⟨r.position.page, r.position.slot + 1⟩)
    (hgiven : c'.given = c.given ++ [(c.engine, tuple)]) (hkeeps : c.engine.Keeps c'.engine) :
    Taken t r tuple c c' := by
  subst hr
  have hrow' : c.engine.row r.page r.slot.toNat = some tuple.values := hrow
  have hahead : c.Ahead r.page.table r := ⟨rfl, hforward, by rw [Stores, hrow']; rfl⟩
  have hfirst : ∀ r', c.Ahead r.page.table r' → r.position ≤ r'.position := fun r' hr' =>
    hvoid.le_position hr'.1 hr'.2.2 hr'.2.1
  have hpassed : ∀ x, c'.scan.position ≤ x ↔ r.position < x := fun x => by
    rw [hscan, Position.next_slot_le_iff]
  have hstores : ∀ r', c'.engine.Stores r' ↔ c.engine.Stores r' := fun r' => by
    rw [Stores, Stores, row_congr (hkeeps.content r'.page)]
  refine ⟨hgiven, hid, hrow', ⟨hahead, hfirst⟩, fun r' => ?_, ?_⟩
  · constructor
    · rintro ⟨htable, hbehind, hstored⟩
      have hlt := (hpassed _).1 hbehind
      exact ⟨⟨htable, hforward.trans (le_of_lt hlt), (hstores r').1 hstored⟩, fun heq => lt_irrefl _ (heq ▸ hlt)⟩
    · rintro ⟨hr', hne⟩
      have hplace : r.position ≠ r'.position := fun heq => hne (RecordId.eq_of_position hr'.1 heq.symm)
      exact ⟨hr'.1, (hpassed _).2 (lt_of_le_of_ne (hfirst r' hr') hplace), (hstores r').2 hr'.2.2⟩
  · rw [hscan]
    exact Position.lt_next_slot_iff.2 (le_refl _)

/-- A call for more gives nothing; its answer says whether a record is ahead. -/
theorem On.kept_hasNext (h : c.On t) : Kept t c (c.after .hasNext) ∧
    (∀ more, (c.scan.hasNext.run c.engine).1.1 = .ok more →
      (more = true ↔ c.scan.isOpen = true ∧ ∃ r, c.Ahead t r)) ∧
    ∀ cause, (c.scan.hasNext.run c.engine).1.1 = .error cause →
      c.engine.Withholds c.scan.txn ⟨t, (c.after .hasNext).scan.position.page⟩ cause := by
  obtain ⟨hquiet, pos', hscan, hforward, hvoid, hmore, hcause⟩ := Scan.settles_hasNext_rows h.consistent h.file
  have hpos : (c.after .hasNext).scan.position = pos' := congrArg Scan.position hscan
  exact ⟨kept_of_void hpos rfl hforward hvoid hquiet.toKeeps, hmore, hpos.symm ▸ hcause⟩

/-- A call for a tuple takes the first record that is ahead, or it gives nothing. -/
theorem On.next (h : c.On t) :
    match (c.scan.next.run c.engine).1.1 with
    | .ok tuple => ∃ r, Taken t r tuple c (c.after .next)
    | .error cause => Kept t c (c.after .next) ∧
      (cause = .scanAtEnd → c.scan.isOpen = true ∧ ∀ r, ¬ c.Ahead t r) ∧
      if c.scan.isOpen then
        cause = .scanAtEnd ∨ c.engine.Withholds c.scan.txn ⟨t, (c.after .next).scan.position.page⟩ cause
      else cause = .scanNotOpen := by
  obtain ⟨hquiet, pos', hforward, hvoid, hnext⟩ := Scan.settles_next_rows h.consistent h.file
  unfold after
  dsimp only
  generalize c.scan.next.run c.engine = answer at *
  obtain ⟨⟨result, scan⟩, engine⟩ := answer
  cases result with
  | error cause =>
    obtain ⟨hscan, hend, hwhy⟩ := hnext
    have hpos : scan.position = pos' := congrArg Scan.position hscan
    refine ⟨kept_of_void hpos rfl hforward hvoid hquiet.toKeeps, fun hcause => ?_, hpos.symm ▸ hwhy⟩
    obtain ⟨hopen, hnothing⟩ := hend hcause
    exact ⟨hopen, fun r hr => not_stores_of_rowAt hr.1 (hnothing r.position hr.2.1) hr.2.2⟩
  | ok tuple =>
    obtain ⟨hscan, hrow, r, hid, rfl, rfl⟩ := hnext
    exact ⟨r, taken_of_void hid rfl hrow hforward hvoid (congrArg Scan.position hscan) rfl hquiet.toKeeps⟩

theorem On.owner_after (h : c.On t) (ev : Scan.Event) :
    (c.after ev).scan.file = c.scan.file ∧ (c.after ev).scan.txn = c.scan.txn := by
  cases ev with
  | opened | closed | call k => exact ⟨rfl, rfl⟩
  | hasNext =>
    obtain ⟨-, pos', hscan, -⟩ := Scan.settles_hasNext_rows h.consistent h.file
    exact Scan.owner_of_eq hscan
  | next =>
    obtain ⟨-, pos', -, -, hnext⟩ := Scan.settles_next_rows h.consistent h.file
    unfold after
    dsimp only
    generalize c.scan.next.run c.engine = answer at *
    obtain ⟨⟨result, scan⟩, engine⟩ := answer
    cases result with
    | error cause => exact Scan.owner_of_eq hnext.1
    | ok tuple => exact Scan.owner_of_eq hnext.1

theorem On.engine_after (h : c.On t) (ev : Scan.Event) :
    (c.after ev).engine.Consistent ∧ (c.after ev).engine.catalog = c.engine.catalog := by
  cases ev with
  | opened | closed => exact ⟨h.consistent, rfl⟩
  | call k =>
    have heffect := Call.effect h.consistent k
    exact ⟨heffect.consistent, heffect.catalog⟩
  | hasNext =>
    obtain ⟨hquiet, -⟩ := Scan.settles_hasNext_rows h.consistent h.file
    exact ⟨hquiet.consistent, hquiet.catalog⟩
  | next =>
    obtain ⟨hquiet, -⟩ := Scan.settles_next_rows h.consistent h.file
    unfold after
    dsimp only
    generalize c.scan.next.run c.engine = answer at *
    obtain ⟨⟨result, scan⟩, engine⟩ := answer
    cases result with
    | error cause => exact ⟨hquiet.consistent, hquiet.catalog⟩
    | ok tuple => exact ⟨hquiet.consistent, hquiet.catalog⟩

theorem On.after (h : c.On t) (ev : Scan.Event) : (c.after ev).On t := by
  obtain ⟨hconsistent, hcatalog⟩ := h.engine_after ev
  refine ⟨hconsistent, ?_⟩
  rw [hcatalog, (h.owner_after ev).1]
  exact h.file

theorem kept_opened (c : Cursor) (t : TableId) : Kept t c (c.after .opened) :=
  ⟨rfl, fun _ => Iff.rfl, le_refl _⟩

theorem kept_closed (c : Cursor) (t : TableId) : Kept t c (c.after .closed) :=
  ⟨rfl, fun _ => Iff.rfl, le_refl _⟩

/-- Whatever is asked of the scan, it keeps what is ahead or takes the first of it; a call of anybody else moves it
not at all. -/
theorem On.step (h : c.On t) (ev : Scan.Event) :
    (Kept t c (c.after ev) ∨ ∃ r tuple, Taken t r tuple c (c.after ev)) ∨
      ∃ k, ev = .call k ∧ (c.after ev).scan = c.scan ∧ (c.after ev).given = c.given := by
  cases ev with
  | opened => exact Or.inl (Or.inl (c.kept_opened t))
  | closed => exact Or.inl (Or.inl (c.kept_closed t))
  | hasNext => exact Or.inl (Or.inl h.kept_hasNext.1)
  | call k => exact Or.inr ⟨k, rfl, rfl, rfl⟩
  | next =>
    have hnext := h.next
    split at hnext
    · next tuple _ =>
      obtain ⟨r, htaken⟩ := hnext
      exact Or.inl (Or.inr ⟨r, tuple, htaken⟩)
    · exact Or.inl (Or.inl hnext.1)

/-! ### Runs -/

theorem run_append (c : Cursor) (events : List Scan.Event) (ev : Scan.Event) :
    c.run (events ++ [ev]) = (c.run events).after ev := List.foldl_append ..

theorem On.run (h : c.On t) (events : List Scan.Event) : (c.run events).On t := by
  induction events generalizing c with
  | nil => exact h
  | cons ev events ih => exact ih (h.after ev)

/-- The tuples that were given are those that were stored, and their records are in order. -/
structure InOrder (t : TableId) (c : Cursor) : Prop where
  stored : ∀ g ∈ c.given, ∃ r, g.2.recordId = some r ∧ r.page.table = t ∧
    g.1.row r.page r.slot.toNat = some g.2.values
  sorted : (c.records.map RecordId.position).Pairwise (· < ·)
  passed : ∀ r ∈ c.records, r.page.table = t ∧ r.position < c.scan.position

theorem records_eq (h : c'.given = c.given) : c'.records = c.records := by rw [records, records, h]

theorem Taken.records (h : Taken t r tuple c c') : c'.records = c.records ++ [r] := by
  rw [Cursor.records, h.given, List.filterMap_append, ← Cursor.records, List.filterMap_cons, h.recordId,
    List.filterMap_nil]

theorem InOrder.kept (h : InOrder t c) (hgiven : c'.given = c.given)
    (hforward : c.scan.position ≤ c'.scan.position) : InOrder t c' := by
  refine ⟨hgiven ▸ h.stored, records_eq hgiven ▸ h.sorted, fun r hr => ?_⟩
  obtain ⟨htable, hbefore⟩ := h.passed r (records_eq hgiven ▸ hr)
  exact ⟨htable, lt_of_lt_of_le hbefore hforward⟩

theorem InOrder.taken (h : InOrder t c) (htaken : Taken t r tuple c c') : InOrder t c' := by
  have hfirst := htaken.first.1
  have hbefore : ∀ r' ∈ c.records, r'.position < r.position := fun r' hr' =>
    lt_of_lt_of_le (h.passed r' hr').2 hfirst.2.1
  refine ⟨fun g hg => ?_, ?_, fun r' hr' => ?_⟩
  · rw [htaken.given] at hg
    rcases List.mem_append.1 hg with hold | hnew
    · exact h.stored g hold
    · obtain rfl := List.mem_singleton.1 hnew
      exact ⟨r, htaken.recordId, hfirst.1, htaken.row⟩
  · rw [htaken.records, List.map_append, List.pairwise_append]
    refine ⟨h.sorted, List.pairwise_singleton _ _, fun x hx y hy => ?_⟩
    obtain ⟨r', hr', rfl⟩ := List.mem_map.1 hx
    obtain rfl := List.mem_singleton.1 hy
    exact hbefore r' hr'
  · rw [htaken.records] at hr'
    rcases List.mem_append.1 hr' with hold | hnew
    · exact ⟨(h.passed r' hold).1, (hbefore r' hold).trans htaken.forward⟩
    · obtain rfl := List.mem_singleton.1 hnew
      exact ⟨hfirst.1, htaken.forward⟩

theorem InOrder.run (h : InOrder t c) (hon : c.On t) (events : List Scan.Event) : InOrder t (c.run events) := by
  induction events generalizing c with
  | nil => exact h
  | cons ev events ih =>
    refine ih ?_ (hon.after ev)
    obtain (hkept | ⟨r, tuple, htaken⟩) | ⟨k, -, hscan, hgiven⟩ := hon.step ev
    · exact h.kept hkept.given hkept.forward
    · exact h.taken htaken
    · exact h.kept hgiven (le_of_eq (congrArg Scan.position hscan.symm))

/-- What was passed since the start and was stored all the time was given. -/
theorem mem_records (h : c₀.On t) (hstart : c₀.scan.position = ⟨0, 0⟩) (hr : r.page.table = t)
    (hstored : ∀ earlier, earlier <+: events → (c₀.run earlier).engine.Stores r)
    (hpassed : r.position < (c₀.run events).scan.position) : r ∈ (c₀.run events).records := by
  induction events using List.reverseRecOn with
  | nil =>
    rw [show (c₀.run []).scan.position = ⟨0, 0⟩ from hstart] at hpassed
    exact absurd hpassed (not_lt_of_ge (Position.zero_le _))
  | append_singleton events ev ih =>
    have hearlier : ∀ earlier, earlier <+: events → (c₀.run earlier).engine.Stores r := fun earlier hpre =>
      hstored earlier (hpre.trans (List.prefix_append events [ev]))
    have hnow : (c₀.run events).engine.Stores r := hearlier events (List.prefix_refl events)
    rw [run_append] at hpassed ⊢
    have hbehind : ¬ ((c₀.run events).after ev).Ahead t r := fun h => absurd hpassed (not_lt_of_ge h.2.1)
    obtain (hkept | ⟨r', tuple, htaken⟩) | ⟨k, -, hscan, hgiven⟩ := (h.run events).step ev
    · rw [records_eq hkept.given]
      refine ih hearlier (not_le.1 fun hle => hbehind ((hkept.ahead r).2 ⟨hr, hle, hnow⟩))
    · rw [htaken.records]
      by_cases heq : r = r'
      · exact List.mem_append_right _ (List.mem_singleton.2 heq)
      · refine List.mem_append_left _ (ih hearlier (not_le.1 fun hle => hbehind ?_))
        exact (htaken.ahead r).2 ⟨⟨hr, hle, hnow⟩, heq⟩
    · rw [records_eq hgiven]
      exact ih hearlier (hscan ▸ hpassed)

theorem exists_earlier (h : c₀.On t) (hgiven : c₀.given = []) {g : Engine × Tuple}
    (hg : g ∈ (c₀.run events).given) : ∃ earlier, earlier <+: events ∧ g.1 = (c₀.run earlier).engine := by
  induction events using List.reverseRecOn with
  | nil =>
    rw [show (c₀.run []).given = [] from hgiven] at hg
    simp at hg
  | append_singleton events ev ih =>
    have hlater : g ∈ (c₀.run events).given →
        ∃ earlier, earlier <+: events ++ [ev] ∧ g.1 = (c₀.run earlier).engine := fun hold => by
      obtain ⟨earlier, hpre, hengine⟩ := ih hold
      exact ⟨earlier, hpre.trans (List.prefix_append events [ev]), hengine⟩
    rw [run_append] at hg
    obtain (hkept | ⟨r, tuple, htaken⟩) | ⟨k, -, -, hsame⟩ := (h.run events).step ev
    · exact hlater (hkept.given ▸ hg)
    · rw [htaken.given] at hg
      rcases List.mem_append.1 hg with hold | hnew
      · exact hlater hold
      · obtain rfl := List.mem_singleton.1 hnew
        exact ⟨events, List.prefix_append events [ev], rfl⟩
    · exact hlater (hsame ▸ hg)

theorem On.owner_run (h : c.On t) (events : List Scan.Event) :
    (c.run events).scan.file = c.scan.file ∧ (c.run events).scan.txn = c.scan.txn := by
  induction events generalizing c with
  | nil => exact ⟨rfl, rfl⟩
  | cons ev events ih =>
    obtain ⟨hfile, htxn⟩ := ih (h.after ev)
    obtain ⟨hfile', htxn'⟩ := h.owner_after ev
    exact ⟨hfile.trans hfile', htxn.trans htxn'⟩

/-- Does the scan report that there is nothing left? -/
def AtEnd (c : Cursor) : Prop := (c.scan.next.run c.engine).1.1 = .error .scanAtEnd

instance (c : Cursor) : Decidable c.AtEnd := inferInstanceAs (Decidable (_ = _))

theorem mem_records_of_atEnd (h : c₀.On t) (hstart : c₀.scan.position = ⟨0, 0⟩) (hr : r.page.table = t)
    (hstored : ∀ earlier, earlier <+: events → (c₀.run earlier).engine.Stores r) (hend : (c₀.run events).AtEnd) :
    r ∈ (c₀.run events).records := by
  have hnext := (h.run events).next
  rw [show ((c₀.run events).scan.next.run (c₀.run events).engine).1.1 = .error .scanAtEnd from hend] at hnext
  obtain ⟨-, hnothing⟩ := hnext.2.1 rfl
  have hnow := hstored events (List.prefix_refl events)
  exact mem_records h hstart hr hstored (not_le.1 fun hle => hnothing r ⟨hr, hle, hnow⟩)

theorem InOrder.nodup_records (h : InOrder t c) : c.records.Nodup :=
  .of_map RecordId.position (h.sorted.imp ne_of_lt)

/-- At the end, exactly what is stored was given, if that was so all the time. -/
theorem row_eq_some_iff_of_atEnd (h : c₀.On t) (hnothing : c₀.given = []) (hstart : c₀.scan.position = ⟨0, 0⟩)
    (horder : InOrder t (c₀.run events)) (hend : (c₀.run events).AtEnd)
    (hunchanged : ∀ earlier, earlier <+: events → ∀ x, (c₀.run earlier).engine.rowAt t x = c₀.engine.rowAt t x)
    (hr : r.page.table = t) (values : List Value) : c₀.engine.row r.page r.slot.toNat = some values ↔
      ∃ g ∈ (c₀.run events).given, g.2.recordId = some r ∧ g.2.values = values := by
  subst hr
  have hrow : ∀ g ∈ (c₀.run events).given, g.2.recordId = some r →
      c₀.engine.row r.page r.slot.toNat = some g.2.values := by
    intro g hg hid
    obtain ⟨r', hid', -, hvalues⟩ := horder.stored g hg
    obtain rfl := Option.some.inj (hid.symm.trans hid')
    obtain ⟨earlier, hpre, hengine⟩ := exists_earlier h hnothing hg
    rw [hengine] at hvalues
    exact (hunchanged earlier hpre r.position).symm.trans hvalues
  constructor
  · intro hvalues
    have hstored : ∀ earlier, earlier <+: events → (c₀.run earlier).engine.Stores r := fun earlier hpre => by
      rw [Stores, show (c₀.run earlier).engine.row r.page r.slot.toNat = c₀.engine.row r.page r.slot.toNat from
        hunchanged earlier hpre r.position, hvalues]
      rfl
    obtain ⟨g, hg, hid⟩ := List.mem_filterMap.1 (mem_records_of_atEnd h hstart rfl hstored hend)
    exact ⟨g, hg, hid, Option.some.inj ((hrow g hg hid).symm.trans hvalues)⟩
  · rintro ⟨g, hg, hid, rfl⟩
    exact hrow g hg hid

end Cursor

/-- **Scans are exact while the table changes.** A scan that starts on whatever state calls have led to gives records
in the order of their places, each as it is stored at that time. Once it reports the end, it has given each record
that was stored all the time exactly once, and if nobody changed the table, exactly what was stored.
Opening and closing the scan, asking it for more and failing passes no record and gives none; a call for a tuple
that succeeds gives the first record ahead and passes no other. Short of its end, an open scan fails only where it is
refused a page. -/
theorem Engine.Reachable.scan_exact (h : e.Reachable) (hfile : e.catalog.file t = .ok s.file)
    (hstart : s.position = ⟨0, 0⟩) (events : List Scan.Event) :
    let c₀ : Cursor := ⟨e, s, []⟩
    let c := c₀.run events
    (c.records.map RecordId.position).Pairwise (· < ·) ∧
    (∀ g ∈ c.given, ∃ r, g.2.recordId = some r ∧ r.page.table = t ∧
      g.1.row r.page r.slot.toNat = some g.2.values) ∧
    (c.AtEnd → ∀ r : RecordId, r.page.table = t →
      (∀ earlier, earlier <+: events → (c₀.run earlier).engine.Stores r) → c.records.count r = 1) ∧
    (c.AtEnd → (∀ earlier, earlier <+: events → ∀ x, (c₀.run earlier).engine.rowAt t x = e.rowAt t x) →
      ∀ (r : RecordId) values, r.page.table = t →
        (e.row r.page r.slot.toNat = some values ↔
          ∃ g ∈ c.given, g.2.recordId = some r ∧ g.2.values = values)) ∧
    (∀ ev ∈ [Scan.Event.opened, .closed, .hasNext], Cursor.Kept t c (c.after ev)) ∧
    (∀ more, (c.scan.hasNext.run c.engine).1.1 = .ok more →
      (more = true ↔ c.scan.isOpen = true ∧ ∃ r, c.Ahead t r)) ∧
    (match (c.scan.next.run c.engine).1.1 with
      | .ok tuple => ∃ r, Cursor.Taken t r tuple c (c.after .next)
      | .error cause => Cursor.Kept t c (c.after .next) ∧
        (cause = .scanAtEnd → c.scan.isOpen = true ∧ ∀ r, ¬ c.Ahead t r)) ∧
    c.scan.rewound = ⟨s.file, s.txn, ⟨0, 0⟩, true⟩ ∧
    (∀ cause, (c.scan.hasNext.run c.engine).1.1 = .error cause →
      c.engine.Withholds s.txn ⟨t, (c.after .hasNext).scan.position.page⟩ cause) ∧
    ∀ cause, (c.scan.next.run c.engine).1.1 = .error cause →
      if c.scan.isOpen then
        cause = .scanAtEnd ∨ c.engine.Withholds s.txn ⟨t, (c.after .next).scan.position.page⟩ cause
      else cause = .scanNotOpen := by
  intro c₀ c
  have hon₀ : c₀.On t := ⟨h.consistent, hfile⟩
  have hon : c.On t := hon₀.run events
  have hnothing : Cursor.InOrder t c₀ := ⟨by simp [c₀], by simp [c₀, Cursor.records], by simp [c₀, Cursor.records]⟩
  have horder : Cursor.InOrder t c := hnothing.run hon₀ events
  obtain ⟨hkept, hmore, hwhy⟩ := hon.kept_hasNext
  obtain ⟨hsame, htxn⟩ := hon₀.owner_run events
  have hnext := hon.next
  rw [htxn] at hwhy hnext
  refine ⟨horder.sorted, horder.stored, fun hend r hr hstored => ?_, fun hend hunchanged r values hr => ?_, ?_, hmore,
    ?_, ?_, hwhy, fun cause hcause => ?_⟩
  · exact List.count_eq_one_of_mem horder.nodup_records (Cursor.mem_records_of_atEnd hon₀ hstart hr hstored hend)
  · exact Cursor.row_eq_some_iff_of_atEnd hon₀ rfl hstart horder hend hunchanged hr values
  · intro ev hev
    simp only [List.mem_cons, List.not_mem_nil, or_false] at hev
    obtain rfl | rfl | rfl := hev
    · exact c.kept_opened t
    · exact c.kept_closed t
    · exact hkept
  · cases hanswer : (c.scan.next.run c.engine).1.1 with
    | ok tuple =>
      rw [hanswer] at hnext
      exact hnext
    | error cause =>
      rw [hanswer] at hnext
      exact ⟨hnext.1, hnext.2.1⟩
  · rw [Scan.rewound, hsame, htxn]
  · rw [hcause] at hnext
    exact hnext.2.2

namespace Sample

/-- A table with one tuple, and a pool that has room for a second page. -/
def roomyWord : Engine :=
  insertApple.after ((Op.addTable "words" "words" schema).run.run (.start .blank { poolPages := 2 })).2

theorem reachable_roomyWord : Reachable roomyWord :=
  .call insertApple
    (.addTable "words" "words" schema (.start .blank { poolPages := 2 }) (newPath_start _ _ _))

/-- A scan of the words that is interrupted by an insert, closed and opened again. -/
def interruptedScan : List Scan.Event := [.opened, .next, .call insertPear, .closed, .opened, .hasNext, .next]

def wordsScanned : Cursor := Cursor.run ⟨roomyWord, Scan.ofFile 0 1, []⟩ interruptedScan

end Sample

set_option maxRecDepth 50000 in
/-- The scan gives both words, the second one from a page that was appended after the scan began. -/
theorem scan_exact_of_words :
    Sample.wordsScanned.records = [⟨⟨0, 0⟩, 0⟩, ⟨⟨0, 1⟩, 0⟩] ∧ Sample.wordsScanned.AtEnd ∧
      Sample.wordsScanned.records.count ⟨⟨0, 0⟩, 0⟩ = 1 := by
  obtain ⟨hfile, hrecords, hend, hstored⟩ : Sample.roomyWord.catalog.file 0 = .ok 0 ∧
      Sample.wordsScanned.records = [⟨⟨0, 0⟩, 0⟩, ⟨⟨0, 1⟩, 0⟩] ∧ Sample.wordsScanned.AtEnd ∧
      ∀ earlier ∈ Sample.interruptedScan.inits,
        (Cursor.run ⟨Sample.roomyWord, Scan.ofFile 0 1, []⟩ earlier).engine.Stores ⟨⟨0, 0⟩, 0⟩ := by
    decide +kernel
  obtain ⟨-, -, hall, -⟩ :=
    Sample.reachable_roomyWord.scan_exact (s := Scan.ofFile 0 1) hfile rfl Sample.interruptedScan
  exact ⟨hrecords, hend, hall hend ⟨⟨0, 0⟩, 0⟩ rfl fun earlier hpre => hstored earlier ((List.mem_inits _ _).2 hpre)⟩

end HeapStore
