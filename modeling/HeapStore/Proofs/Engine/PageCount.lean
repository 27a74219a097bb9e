import HeapStore.Proofs.Engine.Calls
import HeapStore.Proofs.Engine.Faults
import HeapStore.Proofs.Page.Grammar

/-!
# How many pages a table has

Which pages a table has can be told from the contents: of a page there is a content or a cause why it cannot be read,
and what is no page of its table is missing (`Consistent.hasPage_iff`). So what a call does to the contents says how
many pages there are after it. Only an insert makes a page (`ContentSpec.hasPage_iff`), and only an insert makes a file
longer (`Engine.Stays`, `Call.stays_of_not_insert`).
-/

namespace HeapStore

namespace Engine

variable {e e' : Engine} {t : TableId} {n m : Nat} {p q : PageId} {txn : TxnId} {r : RecordId} {slot : Nat}

/-- How many pages a table has. -/
def numPages? (e : Engine) (t : TableId) : Option Nat := (e.file? t).map (·.numPages)

/-- How long the file of a table is. -/
def fileLength? (e : Engine) (t : TableId) : Option Nat := (e.path? t).map e.fileLength

/-- The table has `n` pages now, and its file is as long as it was. -/
structure Stays (t : TableId) (n : Nat) (e e' : Engine) : Prop where
  numPages : e'.numPages? t = some n
  length : e'.fileLength? t = e.fileLength? t

/-- Is there such a page, be it readable or not? -/
def HasPage (e : Engine) (p : PageId) : Prop := e.content p ≠ .error (.pageNotFound p)

theorem pages_eq (hn : e.numPages? t = some n) : e.pages t = List.range n := by
  obtain ⟨f, hf, rfl⟩ := Option.map_eq_some_iff.1 hn
  rw [pages, hf]

theorem Stays.trans {e'' : Engine} (h : Stays t n e e') (h' : Stays t n e' e'') : Stays t n e e'' :=
  ⟨h'.numPages, h'.length.trans h.length⟩

theorem SameLengths.fileLength? (h : e.SameLengths e') (t : TableId) : e'.fileLength? t = e.fileLength? t := by
  rw [Engine.fileLength?, Engine.fileLength?, h.path?, funext h.fileLength]

theorem Lengthens.fileLength? (h : Lengthens p e e') :
    e'.fileLength? p.table = (e.fileLength? p.table).map (max · ((p.number + 1) * pageSize)) := by
  obtain ⟨file, hfile, hlength⟩ := h.fileLength
  rw [Engine.fileLength?, Engine.fileLength?, h.path?, hfile, Option.map_some, Option.map_some, Option.map_some,
    hlength, if_pos rfl]

/-- The files of other tables are at other paths. -/
theorem Lengthens.fileLength?_of_ne (h : Lengthens p e e') (he : e.TablesOpen) (ht : p.table ≠ t) :
    e'.fileLength? t = e.fileLength? t := by
  obtain ⟨file, hfile, hlength⟩ := h.fileLength
  rw [Engine.fileLength?, Engine.fileLength?, h.path?]
  cases hother : e.path? t with
  | none => rfl
  | some other =>
    have hne : other ≠ file := fun heq => ht (he.path?_inj hfile (heq ▸ hother))
    rw [Option.map_some, Option.map_some, hlength, if_neg hne]

theorem hasPage_congr (h : e'.content p = e.content p) : e'.HasPage p ↔ e.HasPage p := by rw [HasPage, HasPage, h]

theorem hasPage_of_ok {rows : List (Option (List Value))} (h : e.content p = .ok rows) : e.HasPage p := by
  rw [HasPage, h]
  simp

theorem hasPage_iff_of_rows {rows rows' : List (Option (List Value))} (hbefore : e.content p = .ok rows)
    (hafter : e'.content p = .ok rows') (hothers : ∀ q, q ≠ p → e'.content q = e.content q) (q : PageId) :
    e'.HasPage q ↔ e.HasPage q := by
  by_cases hq : q = p
  · exact hq ▸ iff_of_true (hasPage_of_ok hafter) (hasPage_of_ok hbefore)
  · exact hasPage_congr (hothers q hq)

theorem IsFree.hasPage (h : e.IsFree p slot) : e.HasPage p := by
  obtain ⟨rows, hrows, -⟩ := h
  exact hasPage_of_ok hrows

/-- Of the pages of a table, and of no others, there is a content or a cause why it cannot be read. -/
theorem Consistent.hasPage_iff (he : e.Consistent) (hn : e.numPages? t = some n) (m : Nat) :
    e.HasPage ⟨t, m⟩ ↔ m < n := by
  obtain ⟨f, hf, rfl⟩ := Option.map_eq_some_iff.1 hn
  have htable := he.table_eq hf
  have hhas : f.Has ⟨t, m⟩ ↔ m < f.numPages := and_iff_right htable.symm
  constructor
  · intro hpage
    by_contra hnot
    exact hpage (he.content_of_not_has (p := ⟨t, m⟩) hf fun h => hnot (hhas.1 h))
  · intro hlt
    cases hcopy : e.cache.copy? ⟨t, m⟩ with
    | some page => exact hasPage_of_ok (content_of_copy hcopy)
    | none =>
      rw [HasPage, content_of_not_cached hcopy, he.stored_eq (p := ⟨t, m⟩) hf, (he.onDisk hf).load_eq (hhas.2 hlt)]
      intro hmissing
      cases hread : HeapPage.decode ⟨t, m⟩ f.schema
          (e.store.disk.read f.path (m * pageSize) pageSize) with
      | ok page => simp [hread, Except.map] at hmissing
      | error cause =>
        rw [hread] at hmissing
        exact HeapPage.decode_ne_missing _ (hread.trans (congrArg _ (Except.error.inj hmissing)))

/-- What pages there are says how many a registered table has. -/
theorem Consistent.numPages?_of_hasPage_iff (he : e'.Consistent) (hcatalog : e'.catalog = e.catalog)
    (hn : e.numPages? t = some n) {k : Nat} (h : ∀ m, e'.HasPage ⟨t, m⟩ ↔ m < k) : e'.numPages? t = some k := by
  obtain ⟨f, hf, -⟩ := Option.map_eq_some_iff.1 hn
  obtain ⟨entry, hentry, -⟩ := Option.bind_eq_some_iff.1 hf
  obtain ⟨g, hg, -⟩ := he.opened t entry (hcatalog ▸ hentry)
  have hnow : e'.numPages? t = some g.numPages := by
    rw [numPages?, file?_of_entry (hcatalog ▸ hentry), hg, Option.map_some]
  rw [hnow, eq_of_forall_lt_iff fun m => (he.hasPage_iff hnow m).symm.trans (h m)]

theorem Consistent.numPages?_eq (he : e.Consistent) (he' : e'.Consistent) (hcatalog : e'.catalog = e.catalog)
    (h : ∀ q, e'.HasPage q ↔ e.HasPage q) (hn : e.numPages? t = some n) : e'.numPages? t = some n :=
  he'.numPages?_of_hasPage_iff hcatalog hn fun m => (h ⟨t, m⟩).trans (he.hasPage_iff hn m)

theorem Keeps.numPages? (h : e.Keeps e') (he : e.Consistent) (hn : e.numPages? t = some n) :
    e'.numPages? t = some n :=
  he.numPages?_eq h.consistent h.catalog (fun q => hasPage_congr (h.content q)) hn

theorem Keeps.stays (h : e.Keeps e') (he : e.Consistent) (hn : e.numPages? t = some n) : Stays t n e e' :=
  ⟨h.numPages? he hn, h.sameLengths.fileLength? t⟩

theorem Writes.hasPage_iff {old row : Option (List Value)} (h : Writes txn p slot old row e e') (q : PageId) :
    e'.HasPage q ↔ e.HasPage q := by
  obtain ⟨rows, hbefore, -, hafter⟩ := h.rows
  exact hasPage_iff_of_rows hbefore hafter h.others q

theorem Writes.numPages? {old row : Option (List Value)} (h : Writes txn p slot old row e e') (he : e.Consistent)
    (hn : e.numPages? t = some n) : e'.numPages? t = some n :=
  he.numPages?_eq h.consistent h.catalog h.hasPage_iff hn

theorem Writes.stays {old row : Option (List Value)} (h : Writes txn p slot old row e e') (he : e.Consistent)
    (hn : e.numPages? t = some n) : Stays t n e e' :=
  ⟨h.numPages? he hn, h.lengths.fileLength? t⟩

theorem Grows.hasPage_iff (h : Grows p e e') (q : PageId) : e'.HasPage q ↔ e.HasPage q ∨ q = p := by
  by_cases hq : q = p
  · obtain ⟨f, -, hblank⟩ := h.blank
    subst hq
    exact iff_of_true (hasPage_of_ok hblank) (Or.inr rfl)
  · rw [hasPage_congr (h.content q hq), or_iff_left hq]

theorem Grows.stays_of_ne (h : Grows p e e') (he : e.Consistent) (ht : p.table ≠ t) (hn : e.numPages? t = some n) :
    Stays t n e e' := by
  refine ⟨h.consistent.numPages?_of_hasPage_iff h.catalog hn fun m => ?_,
    h.lengths.fileLength?_of_ne he.toTablesOpen ht⟩
  have hne : (⟨t, m⟩ : PageId) ≠ p := fun heq => ht (heq ▸ rfl)
  rw [h.hasPage_iff, or_iff_left hne, he.hasPage_iff hn]

theorem Grows.numPages? (h : Grows ⟨t, n⟩ e e') (he : e.Consistent) (hn : e.numPages? t = some n) :
    e'.numPages? t = some (n + 1) := by
  refine h.consistent.numPages?_of_hasPage_iff h.catalog hn fun m => ?_
  rw [h.hasPage_iff, he.hasPage_iff hn, PageId.mk.injEq, and_iff_right rfl, Nat.lt_succ_iff_lt_or_eq]

theorem Grows.isFree (h : Grows p e e') (he : e.Consistent) : e'.IsFree p 0 := by
  obtain ⟨f, hf, hblank⟩ := h.blank
  have hslots := (HeapPage.checkStorable_eq_ok_iff.1 (he.onDisk hf).storable).2
  refine ⟨_, hblank, ?_⟩
  rw [HeapPage.rows_blank, List.getElem?_replicate, if_pos hslots]

theorem Prepared.stays_of_ne (h : Prepared txn p e e') (he : e.Consistent) (ht : p.table ≠ t)
    (hn : e.numPages? t = some n) : Stays t n e e' := by
  obtain hquiet | ⟨hgrows, -⟩ := h
  · exact hquiet.stays he hn
  · exact hgrows.stays_of_ne he ht hn

/-! ### One call -/

theorem Deleted.hasPage_iff (h : Deleted r e e') (q : PageId) : e'.HasPage q ↔ e.HasPage q := by
  obtain ⟨rows, values, hbefore, -, hafter⟩ := h.slot
  exact hasPage_iff_of_rows hbefore hafter h.others q

theorem Consistent.file?_ne_none (he : e.Consistent) {rows : List (Option (List Value))} (h : e.content p = .ok rows) :
    e.file? p.table ≠ none := by
  intro hnone
  cases hcopy : e.cache.copy? p with
  | some page =>
    obtain ⟨-, f, hf, -⟩ := he.fits p page hcopy
    rw [hnone] at hf
    simp at hf
  | none =>
    rw [content_of_not_cached hcopy, he.stored_of_none hnone] at h
    simp [Except.map] at h

end Engine

open Engine

variable {e e' : Engine}

theorem Op.ends_addTable_stays (he : e.Consistent) (name : String) {path : String} (schema : Schema)
    (hnew : e.NewPath path) {t : TableId} {n : Nat} (hn : e.numPages? t = some n) :
    Ends (Op.addTable name path schema) e (fun _ e' => Stays t n e e') fun _ e' => Stays t n e e' := by
  apply (Op.ends_addTable_registers name schema hnew).mono
  · rintro _ e' ⟨entry, g, hregisters, -⟩
    obtain ⟨f, hf, -⟩ := Option.map_eq_some_iff.1 hn
    have hafter := hregisters.file?_of_some he.toTablesOpen hf
    refine ⟨?_, ?_⟩
    · rw [← hn, numPages?, numPages?, hf, hafter]
    · rw [fileLength?, fileLength?, path?, path?, hf, hafter, Option.map_some, Option.map_some, Option.map_some,
        fileLength, fileLength, hregisters.contents]
  · exact fun _ e' hsame => ⟨hsame ▸ hn, by rw [hsame]⟩

namespace Call

variable {c : Call} {reply : Reply}

/-- Only an insert makes a page. -/
theorem ContentSpec.hasPage_iff (h : c.ContentSpec reply e e') (hc : c.insertsInto? = none) (q : PageId) :
    e'.HasPage q ↔ e.HasPage q := by
  unfold ContentSpec at h
  split at h
  · simp [insertsInto?] at hc
  · exact Deleted.hasPage_iff h q
  · exact hasPage_congr (h.1 q)
  · exact hasPage_congr (h q)

theorem stays_of_not_insert (he : e.Consistent) (hc : c.insertsInto? = none) {t : TableId} {n : Nat}
    (hn : e.numPages? t = some n) : Stays t n e (c.after e) := by
  have heffect := effect he c
  exact ⟨he.numPages?_eq heffect.consistent heffect.catalog ((contentSpec he c).hasPage_iff hc) hn,
    (heffect.lengths hc).fileLength? t⟩

end Call

end HeapStore
