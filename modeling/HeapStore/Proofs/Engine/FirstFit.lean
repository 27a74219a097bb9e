import HeapStore.Proofs.Engine.Cursors
import HeapStore.Proofs.Engine.PageCount
import HeapStore.Proofs.Engine.Runs

/-!
# First fit

The free positions of a table are those slots of its pages that hold no tuple (`Engine.FreeAt`). A tuple goes to the
first of them; if there is none, it goes to the first slot of a page that the table gets (`Engine.FirstPlace`). This is
what the search of an insert comes to (`Chosen.place`), as it passes full pages only.

Over runs this says when a file grows (`Event.stays_or_appends`) and what becomes of a free position
(`Event.freeAt_after`): it stays free until a tuple is put there, and till then no page is appended and no tuple is put
behind it. `Served.first_fit` puts this together.
-/

namespace HeapStore

namespace Engine

variable {e e' e₁ : Engine} {t table : TableId} {n m : Nat} {p q : PageId} {txn : TxnId} {x : Position} {r : RecordId}
  {slot : Nat}

/-! ### The place of a tuple -/

/-- Is this a position of the table where a page has a slot that holds no tuple? -/
def FreeAt (e : Engine) (t : TableId) (x : Position) : Prop := e.IsFree ⟨t, x.page⟩ x.slot

/-- The table has got a page more than the `n` that it had. Its file is as long as this takes, or as it was if it was
longer. -/
structure GetsPage (t : TableId) (n : Nat) (e e' : Engine) : Prop where
  numPages : e'.numPages? t = some (n + 1)
  length : e'.fileLength? t = (e.fileLength? t).map (max · ((n + 1) * pageSize))

/-- The table, which had `n` pages and all of them full, has got one page more. -/
structure Appends (t : TableId) (n : Nat) (e e' : Engine) : Prop extends GetsPage t n e e' where
  full : ∀ m < n, e.Full ⟨t, m⟩

/-- Of a table of `n` pages the record is the first free position, or, if there is none, the start of a new page. -/
def FirstPlace (t : TableId) (n : Nat) (r : RecordId) (e e' : Engine) : Prop :=
  IsLeast {x | e.FreeAt t x} r.position ∧ Stays t n e e' ∨ r.position = ⟨n, 0⟩ ∧ Appends t n e e'

theorem Appends.not_freeAt (h : Appends t n e e') (he : e.Consistent) (hn : e.numPages? t = some n) (x : Position) :
    ¬ e.FreeAt t x := fun hfree =>
  (h.full x.page ((he.hasPage_iff hn x.page).1 hfree.hasPage)).not_isFree x.slot hfree

theorem GetsPage.of_stays (h : GetsPage t n e e₁) (h' : Stays t (n + 1) e₁ e') : GetsPage t n e e' :=
  ⟨h'.numPages, h'.length.trans h.length⟩

theorem Stays.trans_getsPage (h : Stays t n e e₁) (h' : GetsPage t n e₁ e') : GetsPage t n e e' :=
  ⟨h'.numPages, h.length ▸ h'.length⟩

theorem Appends.of_stays (h : Appends t n e e₁) (h' : Stays t (n + 1) e₁ e') : Appends t n e e' :=
  ⟨h.toGetsPage.of_stays h', h.full⟩

theorem FirstPlace.le (h : FirstPlace t n r e e') (he : e.Consistent) (hn : e.numPages? t = some n)
    (hx : e.FreeAt t x) : r.position ≤ x := by
  obtain ⟨hleast, -⟩ | ⟨-, happends⟩ := h
  · exact hleast.2 hx
  · exact absurd hx (happends.not_freeAt he hn x)

theorem mem_before_of_lt {before after : List Nat} (h : List.range n = before ++ m :: after) {k : Nat} (hk : k < m) :
    k ∈ before := by
  have hsorted : (before ++ m :: after).Pairwise (· < ·) := h ▸ List.pairwise_lt_range
  have hm : m < n := List.mem_range.1 (h ▸ List.mem_append_right before List.mem_cons_self)
  have hmem : k ∈ before ++ m :: after := h ▸ List.mem_range.2 (hk.trans hm)
  obtain hbefore | hrest := List.mem_append.1 hmem
  · exact hbefore
  · obtain rfl | hafter := List.mem_cons.1 hrest
    · exact absurd hk (lt_irrefl k)
    · have hlt := (List.pairwise_cons.1 (List.pairwise_append.1 hsorted).2.1).1 k hafter
      exact absurd hk (lt_asymm hlt)

/-- A search that appends a page has found all pages of the table full. -/
theorem Extends.appends (h : Extends txn table (e.pages table) p e e') (he : e.Consistent)
    (hn : e.numPages? table = some n) : p = ⟨table, n⟩ ∧ Appends table n e e' := by
  obtain ⟨f, hf, hp⟩ := h.next
  have hpages : f.numPages = n := Option.some.inj ((congrArg _ hf).symm.trans hn)
  obtain rfl : p = ⟨table, n⟩ := by rw [hp, HeapFile.nextPage, he.table_eq hf, hpages]
  refine ⟨rfl, ⟨h.grows.numPages? he hn, h.grows.lengths.fileLength?⟩, fun m hm => h.full m ?_⟩
  rw [pages_eq hn]
  exact List.mem_range.2 hm

/-- A search comes to the first page that is not full, or to the page that it appended. -/
theorem Chosen.place (h : Chosen txn table (e.pages table) p e e₁) (he : e.Consistent)
    (hn : e.numPages? table = some n) (hleast : IsLeast {i | e₁.IsFree p i} slot) :
    p.table = table ∧ (IsLeast {x | e.FreeAt table x} ⟨p.number, slot⟩ ∧ Stays table n e e₁ ∨
      (⟨p.number, slot⟩ : Position) = ⟨n, 0⟩ ∧ Appends table n e e₁) := by
  obtain ⟨before, k, after, hpages, rfl, hfull, hquiet⟩ | hextends := h
  · rw [pages_eq hn] at hpages
    have hsame := isFree_congr (hquiet.content ⟨table, k⟩)
    refine ⟨rfl, Or.inl ⟨⟨(hsame slot).1 hleast.1, fun x hx => ?_⟩, hquiet.stays he hn⟩⟩
    -- The pages before are full, so a free position is on this page or behind it.
    rw [Position.le_iff]
    obtain hlt | heq | hgt := lt_trichotomy x.page k
    · exact absurd hx ((hfull _ (mem_before_of_lt hpages hlt)).not_isFree x.slot)
    · refine Or.inr ⟨heq.symm, hleast.2 ((hsame x.slot).2 ?_)⟩
      exact heq ▸ hx
    · exact Or.inl hgt
  · obtain ⟨rfl, happends⟩ := hextends.appends he hn
    have hzero : slot = 0 := Nat.le_zero.1 (hleast.2 (hextends.grows.isFree he))
    exact ⟨rfl, Or.inr ⟨by rw [hzero], happends⟩⟩

theorem Extends.stays_of_ne (h : Extends txn table (e.pages table) p e e') (he : e.Consistent) (ht : t ≠ table)
    (hn : e.numPages? t = some n) : Stays t n e e' := by
  obtain ⟨f, hf, rfl⟩ := h.next
  exact h.grows.stays_of_ne he (fun heq => ht (heq.symm.trans (he.table_eq hf))) hn

theorem Chosen.exists_numPages? (h : Chosen txn table (e.pages table) p e e₁) : ∃ n, e.numPages? table = some n := by
  obtain ⟨before, k, after, hpages, -⟩ | hextends := h
  · unfold pages at hpages
    split at hpages
    · next f hf => exact ⟨f.numPages, by rw [numPages?, hf, Option.map_some]⟩
    · simp at hpages
  · obtain ⟨f, hf, -⟩ := hextends.next
    exact ⟨f.numPages, by rw [numPages?, hf, Option.map_some]⟩

/-! ### One call -/

/-- Setting one slot of a page leaves a free slot free, be it another slot or this one with nothing put there. -/
theorem IsFree.set {k : Nat} {rows : List (Option (List Value))} {row : Option (List Value)} (hfree : e.IsFree p slot)
    (hbefore : e.content p = .ok rows) (hafter : e'.content p = .ok (rows.set k row)) (hrow : k = slot → row = none) :
    e'.IsFree p slot := by
  obtain ⟨rows', hrows, hnone⟩ := hfree
  obtain rfl := Except.ok.inj (hrows.symm.trans hbefore)
  refine ⟨_, hafter, ?_⟩
  by_cases hk : k = slot
  · rw [← hk, hrow hk]
    exact List.getElem?_set_self (hk ▸ (List.getElem?_eq_some_iff.1 hnone).1)
  · exact (List.getElem?_set_ne hk).trans hnone

theorem Inserted.isFree {values : List Value} (h : Inserted r values e e') (hfree : e.IsFree p slot)
    (hne : r.page = p → r.slot.toNat ≠ slot) : e'.IsFree p slot := by
  by_cases hp : p = r.page
  · subst hp
    obtain ⟨rows, hbefore, -, hafter⟩ | ⟨hmissing, -⟩ := h.slot
    · exact hfree.set hbefore hafter fun hslot => absurd hslot (hne rfl)
    · exact absurd hmissing hfree.hasPage
  · exact (isFree_congr (h.others p hp) slot).2 hfree

theorem SameRows.isFree (h : SameRows e e') (hfree : e.IsFree p slot) : e'.IsFree p slot := by
  obtain hsame | ⟨hmissing, -⟩ := h p
  · exact (isFree_congr hsame slot).2 hfree
  · exact absurd hmissing hfree.hasPage

theorem Deleted.isFree (h : Deleted r e e') (hfree : e.IsFree p slot) : e'.IsFree p slot := by
  by_cases hp : p = r.page
  · subst hp
    obtain ⟨rows, values, hbefore, -, hafter⟩ := h.slot
    exact hfree.set hbefore hafter fun _ => rfl
  · exact (isFree_congr (h.others p hp) slot).2 hfree

theorem Deleted.isFree_self (h : Deleted r e e') : e'.IsFree r.page r.slot.toNat := by
  obtain ⟨rows, values, -, hused, hafter⟩ := h.slot
  exact ⟨_, hafter, List.getElem?_set_self (List.getElem?_eq_some_iff.1 hused).1⟩

end Engine

open Engine

variable {e e' : Engine} {t : TableId} {n : Nat} {p : PageId} {txn : TxnId} {x : Position} {r : RecordId} {slot : Nat}

namespace Call

variable {c : Call} {reply : Reply}

/-- The record where the call has stored a tuple, going by its answer. -/
def fills? : Call → Reply → Option RecordId
  | insert _ _ _ _, .insertion ⟨stored, .ok _⟩ => stored.recordId
  | _, _ => none

theorem exists_insert_of_fills? (h : c.fills? reply = some r) :
    ∃ txn table tuple keep, c = insert txn table tuple keep := by
  unfold fills? at h
  split at h
  · exact ⟨_, _, _, _, rfl⟩
  · simp at h

/-- A free slot stays free unless the call puts a tuple there. -/
theorem ContentSpec.isFree (h : c.ContentSpec reply e e') (hfree : e.IsFree p slot)
    (hne : ∀ r, c.fills? reply = some r → r.page = p → r.slot.toNat ≠ slot) : e'.IsFree p slot := by
  unfold ContentSpec at h
  split at h
  · next txn table tuple keep result =>
    obtain ⟨stored, outcome⟩ := result
    cases outcome with
    | ok handle =>
      obtain ⟨r, rfl, hinserted⟩ : ∃ r, stored = tuple.withRecordId (some r) ∧ Inserted r tuple.values e e' := h
      exact hinserted.isFree hfree (hne r rfl)
    | error cause => exact SameRows.isFree h.2 hfree
  · exact Deleted.isFree h hfree
  · exact (isFree_congr (h.1 p) slot).2 hfree
  · exact (isFree_congr (h p) slot).2 hfree

/-- What an insert into a table comes to, by the record where it has stored its tuple. -/
structure Places (table : TableId) (filled : Option RecordId) (e e' : Engine) : Prop where
  others : ∀ t n, t ≠ table → e.numPages? t = some n → Stays t n e e'
  stored : ∀ r, filled = some r →
    r.page.table = table ∧ ∃ n, e.numPages? table = some n ∧ FirstPlace table n r e e'
  /-- An insert that fails may have appended a page, whose first slot is free then. -/
  failed : filled = none → ∀ n, e.numPages? table = some n →
    Stays table n e e' ∨ Appends table n e e' ∧ e'.FreeAt table ⟨n, 0⟩

theorem settles_insert_places (he : e.Consistent) (txn : TxnId) (table : TableId) (tuple : Tuple) (keep : Bool) :
    Settles (insert txn table tuple keep).run e fun reply e' =>
      Places table ((insert txn table tuple keep).fills? reply) e e' := by
  unfold run
  rw [settles_bind]
  apply (Op.settles_insert he txn table tuple).mono
  rintro ⟨stored, outcome⟩ e₂ hresult
  rw [settles_bind]
  cases outcome with
  | error cause =>
    obtain ⟨-, hattempted⟩ := hresult
    obtain ⟨p, hprepared⟩ := hattempted.exists_prepared
    apply (settles_hold hprepared.consistent keep (.error cause)).mono
    intro _ e' hholds
    have hsame : ∀ t n, e₂.numPages? t = some n → Stays t n e₂ e' := fun _ _ => hholds.stays hprepared.consistent
    obtain hquiet | ⟨p, hextends⟩ := hattempted
    · have hkept : ∀ t n, e.numPages? t = some n → Stays t n e e' := fun t n hn =>
        (hquiet.toKeeps.trans hholds.toKeeps).stays he hn
      exact ⟨fun t n _ => hkept t n, nofun, fun _ n hn => Or.inl (hkept table n hn)⟩
    · refine ⟨fun t n ht hn => ?_, nofun, fun _ n hn => Or.inr ?_⟩
      · have hother := hextends.stays_of_ne he ht hn
        exact hother.trans (hsame t n hother.numPages)
      obtain ⟨rfl, happends⟩ := hextends.appends he hn
      exact ⟨happends.of_stays (hsame _ _ happends.numPages),
        (isFree_congr (hholds.content _) 0).2 (hextends.grows.isFree he)⟩
  | ok h =>
    obtain ⟨p, slot, e₁, hslot, rfl, hchosen, hleast, hwrites⟩ := hresult
    apply (settles_hold hwrites.consistent keep (.ok h)).mono
    intro _ e' hholds
    have hsame : ∀ t n, e₁.numPages? t = some n → Stays t n e₁ e' := fun t n hn =>
      have hwritten := hwrites.stays hchosen.prepared.consistent hn
      hwritten.trans (hholds.stays hwrites.consistent hwritten.numPages)
    obtain ⟨n, hn⟩ := hchosen.exists_numPages?
    obtain ⟨rfl, hplace⟩ := hchosen.place he hn hleast
    refine ⟨fun t k ht hk => ?_, ?_, nofun⟩
    · have hother := hchosen.prepared.stays_of_ne he ht.symm hk
      exact hother.trans (hsame t k hother.numPages)
    rintro _ ⟨⟩
    refine ⟨rfl, n, hn, ?_⟩
    rw [FirstPlace, RecordId.position, HeapPage.toNat_recordId hslot]
    exact hplace.imp (fun h => ⟨h.1, h.2.trans (hsame _ _ h.2.numPages)⟩)
      fun h => ⟨h.1, h.2.of_stays (hsame _ _ h.2.numPages)⟩

theorem places_insert (he : e.Consistent) (txn : TxnId) (table : TableId) (tuple : Tuple) (keep : Bool) :
    Places table ((insert txn table tuple keep).fills? ((insert txn table tuple keep).reply e)) e
      ((insert txn table tuple keep).after e) := settles_insert_places he txn table tuple keep

theorem stays_or_appends (he : e.Consistent) (c : Call) (hn : e.numPages? t = some n) :
    Stays t n e (c.after e) ∨ c.insertsInto? = some t ∧ Appends t n e (c.after e) ∧
      ((∃ r, c.fills? (c.reply e) = some r ∧ r.page.table = t) ∨ (c.after e).FreeAt t ⟨n, 0⟩) := by
  cases c with
  | insert txn table tuple keep =>
    have hplaces := places_insert he txn table tuple keep
    by_cases ht : t = table
    · subst ht
      cases hfills : (insert txn t tuple keep).fills? ((insert txn t tuple keep).reply e) with
      | none => exact (hplaces.failed hfills n hn).imp_right fun h => ⟨rfl, h.1, Or.inr h.2⟩
      | some r =>
        obtain ⟨htable, k, hk, hfirst⟩ := hplaces.stored r hfills
        obtain rfl : n = k := Option.some.inj (hn.symm.trans hk)
        exact hfirst.imp (·.2) fun h => ⟨rfl, h.2, Or.inl ⟨r, rfl, htable⟩⟩
    · exact Or.inl (hplaces.others t n ht hn)
  | _ => exact Or.inl (stays_of_not_insert he rfl hn)

end Call

/-! ### Events -/

namespace Engine

namespace Event

variable {ev : Event}

/-- The table that the event is an insert into. -/
def insertsInto? : Event → Option TableId
  | call c => c.insertsInto?
  | _ => none

/-- The record where the event stores a tuple. -/
def fills? : Event → Engine → Option RecordId
  | call c, e => c.fills? (c.reply e)
  | _, _ => none

def discards? : Event → Option PageId
  | discard p => some p
  | _ => none

/-- A table gets a page only from an insert into it, one at a time and when all its pages are full. If the insert does
not succeed, the new page has a free slot. -/
theorem stays_or_appends (he : e.Consistent) (hev : ev.Allowed e) (hn : e.numPages? t = some n) :
    Stays t n e (ev.after e) ∨ ev.insertsInto? = some t ∧ Appends t n e (ev.after e) ∧
      ((∃ r, ev.fills? e = some r ∧ r.page.table = t) ∨ (ev.after e).FreeAt t ⟨n, 0⟩) := by
  cases ev with
  | discard p => exact Or.inl ⟨hn, rfl⟩
  | transact locks nextTxn => exact Or.inl ⟨hn, rfl⟩
  | register name path schema => exact Or.inl (Op.ends_addTable_stays he name schema hev hn).always
  | call c => exact c.stays_or_appends he hn

theorem firstPlace_of_fills? (he : e.Consistent) (h : ev.fills? e = some r) :
    ∃ n, e.numPages? r.page.table = some n ∧ FirstPlace r.page.table n r e (ev.after e) := by
  cases ev with
  | call c =>
    obtain ⟨txn, table, tuple, keep, rfl⟩ := Call.exists_insert_of_fills? h
    obtain ⟨rfl, hplace⟩ := (Call.places_insert he txn table tuple keep).stored r h
    exact hplace
  | _ => simp [fills?] at h

/-- A free position stays free unless a tuple is put there or its page is dropped from the pool. -/
theorem freeAt_after (he : e.Consistent) (hev : ev.Allowed e) (hx : e.FreeAt t x)
    (hdiscards : ev.discards? ≠ some ⟨t, x.page⟩)
    (hfills : ∀ r, ev.fills? e = some r → r.page.table = t → r.position ≠ x) : (ev.after e).FreeAt t x := by
  cases ev with
  | call c =>
    refine (Call.contentSpec he c).isFree hx fun r hr hpage hslot => hfills r hr (hpage ▸ rfl) ?_
    rw [RecordId.position, hpage, hslot]
  | register name path schema =>
    obtain ⟨rows, hrows, -⟩ := id hx
    have hkept : Ends (Op.addTable name path schema) e (fun _ e' => e'.FreeAt t x) fun _ e' => e'.FreeAt t x := by
      apply (Op.ends_addTable he name schema hev).mono
      · rintro _ e' ⟨-, -, -, hsame⟩
        exact (isFree_congr (hsame _ (he.file?_ne_none hrows)) x.slot).2 hx
      · exact fun _ e' hsame => hsame ▸ hx
    exact hkept.always
  | discard p =>
    have hne : (⟨t, x.page⟩ : PageId) ≠ p := fun heq => hdiscards (congrArg some heq.symm)
    have hcopy : (e.cache.remove p).copy? ⟨t, x.page⟩ = e.cache.copy? ⟨t, x.page⟩ := by
      rw [he.sound.copy?_remove, if_neg hne]
    have hstored : ∀ q, ((discard p).after e).stored q = e.stored q := stored_congr rfl rfl
    exact (isFree_congr (content_congr hcopy (hstored _)) x.slot).2 hx
  | transact locks nextTxn => exact (isFree_congr ((keeps_transact he locks nextTxn).content _) x.slot).2 hx

end Event

/-! ### Runs -/

/-- The engines that one comes to through events that all satisfy a condition on the state they happen in. -/
def Leads (ok : Event → Engine → Prop) : Engine → Engine → Prop :=
  Relation.ReflTransGen fun e e' => ∃ ev : Event, ev.Allowed e ∧ ok ev e ∧ e' = ev.after e

/-- The event puts no tuple at the record, and does not drop its page. -/
def Event.Spares (r : RecordId) (ev : Event) (e : Engine) : Prop :=
  ev.fills? e ≠ some r ∧ ev.discards? ≠ some r.page

/-- The event puts no tuple into the table, and drops no page of it. -/
def Event.Passes (t : TableId) (ev : Event) (e : Engine) : Prop :=
  (∀ r, ev.fills? e = some r → r.page.table ≠ t) ∧ ∀ p, ev.discards? = some p → p.table ≠ t

section

variable {ok : Event → Engine → Prop}

theorem Leads.consistent (h : Leads ok e e') (he : e.Consistent) : e'.Consistent := by
  induction h with
  | refl => exact he
  | tail _ hstep ih =>
    obtain ⟨ev, hev, -, rfl⟩ := hstep
    exact ev.consistent_after ih hev

theorem Leads.freeAt (h : Leads (Event.Spares r) e e') (he : e.Consistent) (hfree : e.FreeAt r.page.table r.position) :
    e'.FreeAt r.page.table r.position := by
  induction h with
  | refl => exact hfree
  | tail hbefore hstep ih =>
    obtain ⟨ev, hev, ⟨hfills, hdiscards⟩, rfl⟩ := hstep
    refine ev.freeAt_after (Leads.consistent hbefore he) hev ih hdiscards fun r' hr' htable hposition => ?_
    exact hfills (RecordId.eq_of_position htable hposition ▸ hr')

/-- While no insert into a table succeeds, the table gets at most one page. -/
theorem Leads.stays_or_getsPage (h : Leads (Event.Passes t) e e') (he : e.Consistent) (hn : e.numPages? t = some n) :
    Stays t n e e' ∨ GetsPage t n e e' ∧ e'.FreeAt t ⟨n, 0⟩ := by
  induction h with
  | refl => exact Or.inl ⟨hn, rfl⟩
  | tail hbefore hstep ih =>
    obtain ⟨ev, hev, ⟨hfills, hdiscards⟩, rfl⟩ := hstep
    have he' := Leads.consistent hbefore he
    obtain hsame | ⟨hmore, hfree⟩ := ih
    · obtain hkept | ⟨-, happends, ⟨r, hr, htable⟩ | hfree⟩ := ev.stays_or_appends he' hev hsame.numPages
      · exact Or.inl (hsame.trans hkept)
      · exact absurd htable (hfills r hr)
      · exact Or.inr ⟨hsame.trans_getsPage happends.toGetsPage, hfree⟩
    · -- The page that was appended has room, so there is no second one.
      obtain hkept | ⟨-, happends, -⟩ := ev.stays_or_appends he' hev hmore.numPages
      · refine Or.inr ⟨hmore.of_stays hkept, ev.freeAt_after he' hev hfree (fun hdrop => hdiscards _ hdrop rfl) ?_⟩
        exact fun r hr htable => absurd htable (hfills r hr)
      · exact absurd hfree (happends.not_freeAt he' hmore.numPages _)

end

/-- The engines that there can be: started on some disk, whatever happened since. -/
abbrev Served : Engine → Prop := Run Event.Allowed fun _ => False

theorem Served.consistent (h : Served e) : e.Consistent := Run.consistent (fun _ _ => id) h

/-- What it comes to that inserts take the first place that fits. -/
structure FirstFit (e : Engine) : Prop where
  /-- An insert that succeeds puts the tuple at the first free position or, if there is none, on a new page. -/
  placed : ∀ txn table tuple keep stored h,
    (Call.insert txn table tuple keep).reply e = .insertion ⟨stored, .ok h⟩ →
      ∃ r n, stored = tuple.withRecordId (some r) ∧ r.page.table = table ∧ e.numPages? table = some n ∧
        FirstPlace table n r e ((Call.insert txn table tuple keep).after e)
  /-- Whatever happens, a table gets a page only from an insert into it, and only if all its pages are full. -/
  grown : ∀ ev t n, Event.Allowed ev e → e.numPages? t = some n →
    Stays t n e (ev.after e) ∨ ev.insertsInto? = some t ∧ Appends t n e (ev.after e)
  /-- As long as no insert into a table succeeds, however many fail, the table gets at most one page. -/
  stalled : ∀ t n e', e.numPages? t = some n → Leads (Event.Passes t) e e' →
    Stays t n e e' ∨ GetsPage t n e e'
  /-- As long as no tuple is put where one was deleted, none is put behind. -/
  reused : ∀ txn r keep h e' ev r', (Call.delete txn (some r) keep).reply e = .handle (.ok h) →
    Leads (Event.Spares r) ((Call.delete txn (some r) keep).after e) e' → Event.fills? ev e' = some r' →
      r'.page.table = r.page.table → r'.position ≤ r.position

/-- **First fit.** On every engine, whatever its tables hold and whoever holds locks, a tuple goes to the first free
position of its table. -/
theorem Served.first_fit (h : Served e) : e.FirstFit := by
  have he := h.consistent
  refine ⟨fun txn table tuple keep stored handle hreply => ?_, fun ev t n hev hn => ?_, fun t n e' hn hleads => ?_,
    fun txn r keep handle e' ev r' hreply hleads hfills htable => ?_⟩
  · have hspec := Call.contentSpec he (.insert txn table tuple keep)
    rw [hreply] at hspec
    obtain ⟨r, rfl, -⟩ := hspec
    have hplaces := Call.places_insert he txn table tuple keep
    rw [hreply] at hplaces
    obtain ⟨htable, n, hn, hplace⟩ := hplaces.stored r rfl
    exact ⟨r, n, rfl, htable, hn, hplace⟩
  · exact (ev.stays_or_appends he hev hn).imp_right fun h => ⟨h.1, h.2.1⟩
  · exact (hleads.stays_or_getsPage he hn).imp_right (·.1)
  · have hspec := Call.contentSpec he (.delete txn (some r) keep)
    rw [hreply] at hspec
    have hfree : ((Call.delete txn (some r) keep).after e).FreeAt r.page.table r.position := Deleted.isFree_self hspec
    have he' := (Call.effect he (.delete txn (some r) keep)).consistent
    obtain ⟨n, hn, hplace⟩ := ev.firstPlace_of_fills? (hleads.consistent he') hfills
    rw [htable] at hn hplace
    exact hplace.le (hleads.consistent he') hn (hleads.freeAt he' hfree)

end Engine

namespace Sample

def deleteApple : Call := .delete 1 (some ⟨⟨0, 0⟩, 0⟩) false

/-- Two pages, both full and in the pool. -/
def bothWords : Engine := insertPear.after roomyWord

/-- The first of two pages has a free slot. -/
def onlyPear : Engine := deleteApple.after bothWords

theorem served_roomyWord : Served roomyWord :=
  .event (.call insertApple)
    (.event (.register "words" "words" schema) (.start .blank { poolPages := 2 }) (newPath_start _ _ _)) trivial

theorem served_bothWords : Served bothWords := .event (.call insertPear) served_roomyWord trivial

theorem served_onlyPear : Served onlyPear := .event (.call deleteApple) served_bothWords trivial

theorem reply_insertPear {e : Engine} {r : RecordId} {h : Handle}
    (hresult : ((Op.insert 1 0 pear).run e).1.tuple = pear.withRecordId (some r) ∧
      ((Op.insert 1 0 pear).run e).1.outcome = .ok h) :
    (Call.insert 1 0 pear false).reply e = .insertion ⟨pear.withRecordId (some r), .ok h⟩ := by
  rw [← hresult.1, ← hresult.2]
  rfl

theorem reply_deleteApple {e : Engine} {h : Handle}
    (hresult : ((Op.delete 1 (some ⟨⟨0, 0⟩, 0⟩)).run.run e).1 = .ok h) : deleteApple.reply e = .handle (.ok h) := by
  rw [← hresult]
  rfl

set_option maxRecDepth 50000 in
theorem reply_roomyWord :
    (Call.insert 1 0 pear false).reply roomyWord =
      .insertion ⟨pear.withRecordId (some ⟨⟨0, 1⟩, 0⟩), .ok ⟨⟨0, 1⟩, 1⟩⟩ :=
  reply_insertPear (by decide +kernel)

set_option maxRecDepth 50000 in
theorem reply_onlyPear :
    (Call.insert 1 0 pear false).reply onlyPear =
      .insertion ⟨pear.withRecordId (some ⟨⟨0, 0⟩, 0⟩), .ok ⟨⟨0, 0⟩, 0⟩⟩ :=
  reply_insertPear (by decide +kernel)

set_option maxRecDepth 50000 in
theorem reply_bothWords : deleteApple.reply bothWords = .handle (.ok ⟨⟨0, 0⟩, 0⟩) :=
  reply_deleteApple (by decide +kernel)

end Sample

set_option maxRecDepth 50000 in
/-- The second tuple finds the only page full and starts a new one. Once the first one is deleted, its slot is the first
free position, and the next tuple goes there, be it who puts it. -/
theorem first_fit_of_two_words :
    Appends 0 1 Sample.roomyWord Sample.bothWords ∧ IsLeast {x | Sample.onlyPear.FreeAt 0 x} ⟨0, 0⟩ ∧
      ∀ ev r, Event.fills? ev Sample.onlyPear = some r → r.page.table = 0 → r.position ≤ ⟨0, 0⟩ := by
  refine ⟨?_, ?_, fun ev r => ?_⟩
  · obtain ⟨r, n, hr, -, hn, hplace⟩ := Sample.served_roomyWord.first_fit.placed _ _ _ _ _ _ Sample.reply_roomyWord
    obtain rfl : n = 1 := Option.some.inj (hn.symm.trans (by decide +kernel))
    obtain rfl : ⟨⟨0, 1⟩, 0⟩ = r := Option.some.inj (congrArg Tuple.recordId hr)
    obtain ⟨hleast, -⟩ | ⟨-, happends⟩ := hplace
    · exact absurd ((Sample.served_roomyWord.consistent.hasPage_iff hn 1).1 hleast.1.hasPage) (lt_irrefl 1)
    · exact happends
  · obtain ⟨r, n, hr, -, hn, hplace⟩ := Sample.served_onlyPear.first_fit.placed _ _ _ _ _ _ Sample.reply_onlyPear
    obtain rfl : n = 2 := Option.some.inj (hn.symm.trans (by decide +kernel))
    obtain rfl : ⟨⟨0, 0⟩, 0⟩ = r := Option.some.inj (congrArg Tuple.recordId hr)
    obtain ⟨hleast, -⟩ | ⟨hnew, -⟩ := hplace
    · exact hleast
    · exact absurd (congrArg Position.page hnew) (by decide)
  · exact Sample.served_bothWords.first_fit.reused _ _ _ _ _ ev r Sample.reply_bothWords .refl

end HeapStore
