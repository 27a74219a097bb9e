import HeapStore.Proofs.Engine.Rows
import HeapStore.Proofs.Engine.Scans
import HeapStore.Proofs.Engine.Tables

/-!
# Calls, one after the other

A `Call` is what a user of an engine can ask for, and `Call.run` carries it out. The page objects that a
call gives are only read; a caller may hold them and let them go again, so that they cannot be evicted in
between.

What a call does to the contents is said by `Call.ContentSpec`: an insert fills one free slot, a delete frees
one slot, and no other call changes what is stored, whatever it reads, evicts or writes to disk
(`Call.contentSpec`). Proofs about long runs need less: `Call.Effect` says which row a call may have replaced and whose
locks it may have changed (`Call.effect`).
-/

namespace HeapStore

/-- What a user can ask of an engine. With `keep` the caller goes on holding the page object that the call
gives. -/
inductive Call where
  | getPage (txn : TxnId) (p : PageId) (access : Access) (keep : Bool)
  | insert (txn : TxnId) (table : TableId) (t : Tuple) (keep : Bool)
  | delete (txn : TxnId) (r : Option RecordId) (keep : Bool)
  | releasePage (txn : TxnId) (p : PageId)
  | flushPage (p : PageId)
  | flushTxn (txn : TxnId)
  | flushAll
  | commit (txn : TxnId)
  | abort (txn : TxnId)
  | hasNext (s : Scan)
  | next (s : Scan)
  /-- The caller no longer holds a page object. -/
  | drop (h : Handle)

/-- What a call answers. A scan comes back with its new position. -/
inductive Reply where
  | handle (outcome : Except StorageError Handle)
  | insertion (result : Op.Insertion)
  | flushed (outcome : Except StorageError Bool)
  | ended (outcome : Except StorageError Unit)
  | more (outcome : Except StorageError Bool) (s : Scan)
  | row (outcome : Except StorageError Tuple) (s : Scan)

namespace Call

/-- The caller holds the page object that the call gave, if it is to be kept. -/
def hold (keep : Bool) (outcome : Except StorageError Handle) : StateM Engine Unit :=
  match outcome, keep with
  | .ok h, true => modify fun e => { e with cache := e.cache.hold h }
  | _, _ => pure ()

def run : Call → StateM Engine Reply
  | getPage txn p access keep => do
    let outcome ← (Op.getPage txn p access).run
    hold keep outcome
    return .handle outcome
  | insert txn table t keep => do
    let result ← Op.insert txn table t
    hold keep result.outcome
    return .insertion result
  | delete txn r keep => do
    let outcome ← (Op.delete txn r).run
    hold keep outcome
    return .handle outcome
  | releasePage txn p => return .ended (← (Op.releasePage txn p).run)
  | flushPage p => return .flushed (← (Op.flushPage p).run)
  | flushTxn txn => return .ended (← (Op.flushTxn txn).run)
  | flushAll => return .ended (← Op.flushAll.run)
  | commit txn => return .ended (← (Op.commit txn).run)
  | abort txn => return .ended (← (Op.abort txn).run)
  | hasNext s => do
    let (outcome, s) ← s.hasNext
    return .more outcome s
  | next s => do
    let (outcome, s) ← s.next
    return .row outcome s
  | drop h => do
    -- Only who holds an object can let it go.
    if (← get).cache.isHeld h then modify fun e => { e with cache := e.cache.letGo h }
    return .ended (.ok ())

/-- What the call answers in a state. -/
def reply (c : Call) (e : Engine) : Reply := (c.run.run e).1

/-- The state after the call. -/
def after (c : Call) (e : Engine) : Engine := (c.run.run e).2

/-- The transaction that the call is made for. -/
def txn? : Call → Option TxnId
  | getPage txn _ _ _ | insert txn _ _ _ | delete txn _ _ | releasePage txn _ | flushTxn txn | commit txn
  | abort txn => some txn
  | hasNext s | next s => some s.txn
  | flushPage _ | flushAll | drop _ => none

/-- Does the call give up locks that were held before it? -/
def givesUp : Call → Bool
  | releasePage _ _ | commit _ | abort _ => true
  | _ => false

/-- The table that the call inserts into. -/
def insertsInto? : Call → Option TableId
  | insert _ table _ _ => some table
  | _ => none

/-- The slot that the call has changed, going by its answer, and the row in it now. -/
def change? : Call → Reply → Option (RecordId × Option (List Value))
  | insert _ _ t _, .insertion ⟨stored, .ok _⟩ => stored.recordId.map (·, some t.values)
  | delete _ (some r) _, .handle (.ok _) => some (r, none)
  | _, _ => none

end Call

namespace Engine

/-! ### What calls may change -/

/-- The free slot `r` was filled, on a page that was there or on one that was appended and has no other
tuple; nothing else changed. -/
structure Inserted (r : RecordId) (values : List Value) (e e' : Engine) : Prop where
  slot :
    (∃ rows, e.content r.page = .ok rows ∧ rows[r.slot.toNat]? = some none ∧
      e'.content r.page = .ok (rows.set r.slot.toNat (some values))) ∨
    (e.content r.page = .error (.pageNotFound r.page) ∧ ∃ slots, r.slot.toNat < slots ∧
      e'.content r.page = .ok ((List.replicate slots none).set r.slot.toNat (some values)))
  others : ∀ q, q ≠ r.page → e'.content q = e.content q

/-- The slot `r`, which was in use, was freed; nothing else changed. -/
structure Deleted (r : RecordId) (e e' : Engine) : Prop where
  slot : ∃ rows values, e.content r.page = .ok rows ∧ rows[r.slot.toNat]? = some (some values) ∧
    e'.content r.page = .ok (rows.set r.slot.toNat none)
  others : ∀ q, q ≠ r.page → e'.content q = e.content q

/-- No row changed; at most there is a new page, without tuples. -/
def SameRows (e e' : Engine) : Prop :=
  ∀ q, e'.content q = e.content q ∨
    e.content q = .error (.pageNotFound q) ∧ ∃ slots, e'.content q = .ok (List.replicate slots none)

/-- No row changed, and no page was newly marked as changed. -/
structure Idle (e e' : Engine) : Prop where
  consistent : e'.Consistent
  rows : SameRows e e'
  dirty : ∀ q page, e'.cache.copy? q = some page → page.dirtiedBy ≠ none → e.cache.copy? q = some page

/-- The values in a slot, if it exists and is in use. -/
def row (e : Engine) (p : PageId) (slot : Nat) : Option (List Value) :=
  match e.content p with
  | .ok rows => rows[slot]?.join
  | .error _ => none

end Engine

/-- What a call does to the contents of all pages. A page that is asked for is given as it is. -/
def Call.ContentSpec : Call → Reply → Engine → Engine → Prop
  | .insert _ _ t _, .insertion result, e, e' =>
    match result.outcome with
    | .ok _ => ∃ r, result.tuple = t.withRecordId (some r) ∧ Engine.Inserted r t.values e e'
    | .error _ => result.tuple = t ∧ Engine.SameRows e e'
  | .delete _ (some r) _, .handle (.ok _), e, e' => Engine.Deleted r e e'
  | .getPage _ p _ _, .handle (.ok h), e, e' =>
    (∀ q, e'.content q = e.content q) ∧
      ∃ page, e'.cache.page? h = some page ∧ page.id = p ∧ e.content p = .ok page.rows
  | _, _, e, e' => ∀ q, e'.content q = e.content q

open Engine

/-! ### The effect of one call -/

variable {e e' e₁ : Engine} {txn : TxnId} {p : PageId}

theorem Engine.Keeps.idle (h : e.Keeps e') : Idle e e' :=
  ⟨h.consistent, fun q => Or.inl (h.content q), h.dirty⟩

theorem Engine.Prepared.idle (h : Prepared txn p e e') : Idle e e' := by
  cases h with
  | inl hquiet => exact hquiet.toKeeps.idle
  | inr hgrows =>
    refine ⟨hgrows.1.consistent, fun q => ?_, hgrows.1.dirty⟩
    by_cases heq : q = p
    · subst heq
      obtain ⟨f, -, hblank⟩ := hgrows.1.blank
      rw [HeapPage.rows_blank] at hblank
      exact Or.inr ⟨hgrows.1.missing, _, hblank⟩
    · exact Or.inl (hgrows.1.content q heq)

theorem Engine.Idle.trans_keeps {e'' : Engine} (h : Idle e e') (h' : e'.Keeps e'') : Idle e e'' := by
  refine ⟨h'.consistent, fun q => ?_,
    fun q page hcopy hdirty => h.dirty q page (h'.dirty q page hcopy hdirty) hdirty⟩
  rw [h'.content]
  exact h.rows q

/-- Nothing changed but what holding an object changes. -/
structure Engine.Holds (e e' : Engine) : Prop extends Keeps e e' where
  locks : e'.locks = e.locks
  pages : ∀ h, e'.cache.page? h = e.cache.page? h
  write : ∀ {txn p slot old row e₀}, Writes txn p slot old row e₀ e → Writes txn p slot old row e₀ e'

theorem Call.settles_hold (he : e.Consistent) (keep : Bool) (outcome : Except StorageError Handle) :
    Settles (hold keep outcome) e fun _ e' => Holds e e' := by
  have hnothing : Holds e e := ⟨he.keeps_refl, rfl, fun _ => rfl, id⟩
  unfold hold
  cases outcome with
  | error cause => exact hnothing
  | ok h => cases keep with
    | false => exact hnothing
    | true =>
      exact ⟨he.keeps_copies (he.sound.hold h) (Cache.copy?_hold h), rfl, Cache.page?_hold h,
        fun hwrites => hwrites.of_copies (he.sound.hold h) (Cache.copy?_hold h)⟩

namespace Call

/-- Whose locks a call may have changed, and how. -/
structure LocksAfter (c : Call) (t t' : LockTable) : Prop where
  safe : t.Safe → t'.Safe
  others : ∀ u, c.txn? ≠ some u → ∀ q, t'.mode? q u = t.mode? q u
  kept : c.givesUp = false → ∀ u q held, t.mode? q u = some held →
    ∃ held', t'.mode? q u = some held' ∧ held ≤ held'

/-- What a call does: it registers no table, makes a file longer only to insert, changes the locks of one transaction,
and either no row or, for this transaction, the one that its answer names. -/
structure Effect (c : Call) (reply : Reply) (e e' : Engine) : Prop where
  catalog : e'.catalog = e.catalog
  locks : c.LocksAfter e.locks e'.locks
  lengths : c.insertsInto? = none → e.SameLengths e'
  rows : match c.change? reply with
    | none => Idle e e'
    | some (r, row) => ∃ txn old e₁, c.txn? = some txn ∧ Prepared txn r.page e e₁ ∧
        Writes txn r.page r.slot.toNat old row e₁ e'

variable {c : Call} {t t' : LockTable}

theorem LocksAfter.of_gains (hc : c.txn? = some txn) (h : t.Gains txn t') : c.LocksAfter t t' where
  safe := h.safe
  others u hu q := h.others q u fun heq => hu (heq ▸ hc)
  kept _ u q held hheld := by
    by_cases heq : u = txn
    · subst heq
      exact h.own q held hheld
    · exact ⟨held, (h.others q u heq).trans hheld, LockMode.le_refl held⟩

theorem LocksAfter.of_onlyFor (hc : c.txn? = some txn) (hgives : c.givesUp = true) (h : t.OnlyFor txn t') :
    c.LocksAfter t t' where
  safe := h.safe
  others u hu q := h.others q u fun heq => hu (heq ▸ hc)
  kept hkeeps := by simp [hgives] at hkeeps

theorem LocksAfter.of_eq (h : t' = t) : c.LocksAfter t t' where
  safe := h ▸ id
  others _ _ _ := by rw [h]
  kept _ _ _ held hheld := ⟨held, h ▸ hheld, LockMode.le_refl held⟩

theorem effect_of_keeps {reply : Reply} (hchange : c.change? reply = none) (h : e.Keeps e')
    (hlocks : c.LocksAfter e.locks e'.locks) : c.Effect reply e e' :=
  ⟨h.catalog, hlocks, fun _ => h.sameLengths, by rw [hchange]; exact h.idle⟩

theorem settles_getPage (he : e.Consistent) (txn : TxnId) (p : PageId) (access : Access) (keep : Bool) :
    Settles (getPage txn p access keep).run e fun reply e' =>
      (getPage txn p access keep).ContentSpec reply e e' ∧
        (getPage txn p access keep).Effect reply e e' := by
  unfold run
  rw [settles_bind, settles_run]
  apply (Op.ends_getPage he txn p access).mono
  · intro h e₁ hget
    obtain ⟨hquiet, hhandle, -⟩ := hget
    obtain ⟨page, hpage, hcopy, hid⟩ := hquiet.consistent.sound.exists_copy hhandle
    rw [settles_bind]
    apply (settles_hold hquiet.consistent keep (.ok h)).mono
    intro _ e' hholds
    rw [settles_pure]
    have hkeeps := hquiet.toKeeps.trans hholds.toKeeps
    refine ⟨⟨hkeeps.content, page, (hholds.pages h).trans hpage, hid, ?_⟩, effect_of_keeps rfl hkeeps ?_⟩
    · rw [← hquiet.content, content_of_copy hcopy]
    · rw [hholds.locks]
      exact .of_gains rfl hquiet.locks
  · intro cause e₁ hquiet
    rw [settles_bind]
    apply (settles_hold hquiet.consistent keep (.error cause)).mono
    intro _ e' hholds
    rw [settles_pure]
    have hkeeps := hquiet.toKeeps.trans hholds.toKeeps
    refine ⟨hkeeps.content, effect_of_keeps rfl hkeeps ?_⟩
    rw [hholds.locks]
    exact .of_gains rfl hquiet.locks

theorem inserted_of_writes {slot : Nat} {values : List Value} {r : RecordId} (hr : r.page = p)
    (hslot : r.slot.toNat = slot) (hprepared : Prepared txn p e e₁)
    (hwrites : Writes txn p slot none (some values) e₁ e') : Inserted r values e e' := by
  subst hr hslot
  refine ⟨?_, fun q hq => (hwrites.others q hq).trans (hprepared.content_of_ne hq)⟩
  obtain ⟨rows, hbefore, hfree, hafter⟩ := hwrites.rows
  cases hprepared with
  | inl hquiet => exact Or.inl ⟨rows, (hquiet.content _).symm.trans hbefore, hfree, hafter⟩
  | inr hgrows =>
    obtain ⟨f, -, hblank⟩ := hgrows.1.blank
    rw [hbefore, HeapPage.rows_blank] at hblank
    obtain rfl := Except.ok.inj hblank
    have hlt := (List.getElem?_eq_some_iff.1 hfree).1
    rw [List.length_replicate] at hlt
    exact Or.inr ⟨hgrows.1.missing, _, hlt, hafter⟩

theorem settles_insert (he : e.Consistent) (txn : TxnId) (table : TableId) (t : Tuple) (keep : Bool) :
    Settles (insert txn table t keep).run e fun reply e' =>
      (insert txn table t keep).ContentSpec reply e e' ∧
        (insert txn table t keep).Effect reply e e' := by
  unfold run
  rw [settles_bind]
  apply (Op.settles_insert he txn table t).mono
  intro result e₂ hresult
  obtain ⟨stored, outcome⟩ := result
  cases outcome with
  | error cause =>
    obtain ⟨hsame, hattempted⟩ := hresult
    obtain ⟨p, hprepared⟩ := hattempted.exists_prepared
    rw [settles_bind]
    apply (settles_hold hprepared.consistent keep (.error cause)).mono
    intro _ e' hholds
    rw [settles_pure]
    have hidle := hprepared.idle.trans_keeps hholds.toKeeps
    refine ⟨⟨hsame, hidle.rows⟩, hholds.catalog.trans hprepared.catalog, ?_, nofun, hidle⟩
    rw [hholds.locks]
    exact .of_gains rfl hprepared.locks
  | ok h =>
    obtain ⟨p, slot, e₁, hslot, hstored, hchosen, -, hwrites⟩ := hresult
    have hprepared := hchosen.prepared
    rw [settles_bind]
    apply (settles_hold hwrites.consistent keep (.ok h)).mono
    intro _ e' hholds
    rw [settles_pure]
    have hwrites' := hholds.write hwrites
    have hnumber : (HeapPage.recordId p slot).slot.toNat = slot := HeapPage.toNat_recordId hslot p
    have hchange : (insert txn table t keep).change? (.insertion ⟨stored, .ok h⟩) =
        some (HeapPage.recordId p slot, some t.values) := by
      dsimp only at hstored
      rw [hstored]
      rfl
    refine ⟨⟨HeapPage.recordId p slot, hstored, inserted_of_writes rfl hnumber hprepared hwrites'⟩,
      hwrites'.catalog.trans hprepared.catalog, ?_, nofun, ?_⟩
    · rw [hwrites'.locks]
      exact .of_gains rfl hprepared.locks
    · rw [hchange]
      refine ⟨txn, none, e₁, rfl, hprepared, ?_⟩
      rw [hnumber]
      exact hwrites'

theorem settles_delete (he : e.Consistent) (txn : TxnId) (r : Option RecordId) (keep : Bool) :
    Settles (delete txn r keep).run e fun reply e' =>
      (delete txn r keep).ContentSpec reply e e' ∧ (delete txn r keep).Effect reply e e' := by
  unfold run
  rw [settles_bind, settles_run]
  apply (Op.ends_delete he txn r).mono
  · intro h e₂ hdelete
    obtain ⟨rid, values, e₁, rfl, hquiet, hwrites⟩ := hdelete
    rw [settles_bind]
    apply (settles_hold hwrites.consistent keep (.ok h)).mono
    intro _ e' hholds
    rw [settles_pure]
    have hwrites' := hholds.write hwrites
    obtain ⟨rows, hbefore, hused, hafter⟩ := hwrites'.rows
    refine ⟨⟨⟨rows, values, (hquiet.content _).symm.trans hbefore, hused, hafter⟩,
      fun q hq => (hwrites'.others q hq).trans (hquiet.content q)⟩, hwrites'.catalog.trans hquiet.catalog, ?_,
      fun _ => hquiet.sameLengths.trans hwrites'.lengths, txn, some values, e₁, rfl, Or.inl hquiet, hwrites'⟩
    rw [hwrites'.locks]
    exact .of_gains rfl hquiet.locks
  · intro cause e₂ hquiet
    rw [settles_bind]
    apply (settles_hold hquiet.consistent keep (.error cause)).mono
    intro _ e' hholds
    rw [settles_pure]
    have hkeeps := hquiet.toKeeps.trans hholds.toKeeps
    have hchange : (delete txn r keep).change? (.handle (.error cause)) = none := by cases r <;> rfl
    refine ⟨?_, effect_of_keeps hchange hkeeps ?_⟩
    · cases r <;> exact hkeeps.content
    · rw [hholds.locks]
      exact .of_gains rfl hquiet.locks

/-- What holds of the contents and the effect of every call. -/
theorem settles_run (he : e.Consistent) (c : Call) :
    Settles c.run e fun reply e' => c.ContentSpec reply e e' ∧ c.Effect reply e e' := by
  cases c with
  | getPage txn p access keep => exact settles_getPage he txn p access keep
  | insert txn table t keep => exact settles_insert he txn table t keep
  | delete txn r keep => exact settles_delete he txn r keep
  | releasePage txn p =>
    have hkeeps := he.keeps_locks (e.locks.release p txn).2
    exact ⟨hkeeps.content, effect_of_keeps rfl hkeeps (.of_onlyFor rfl rfl .release)⟩
  | flushPage p =>
    unfold run
    rw [settles_bind, HeapStore.settles_run]
    apply (Op.ends_flushPage he p).mono_ok
    intro _ e' h
    exact ⟨h.1.content, effect_of_keeps rfl h.1 (.of_eq h.2)⟩
  | flushTxn txn =>
    unfold run
    rw [settles_bind, HeapStore.settles_run]
    apply (Op.ends_flushTxn he txn).mono_ok
    intro _ e' h
    exact ⟨h.1.content, effect_of_keeps rfl h.1 (.of_eq h.2.1)⟩
  | flushAll =>
    unfold run
    rw [settles_bind, HeapStore.settles_run]
    apply (Op.ends_flushAll he).mono_ok
    intro _ e' h
    exact ⟨h.1.content, effect_of_keeps rfl h.1 (.of_eq h.2)⟩
  | commit txn =>
    unfold run
    rw [settles_bind, HeapStore.settles_run]
    apply (Op.ends_commit he txn).mono_ok
    intro _ e' h
    rw [settles_pure]
    refine ⟨h.1.content, effect_of_keeps rfl h.1 ?_⟩
    rw [h.2.1]
    exact .of_onlyFor rfl rfl .releaseAll
  | abort txn =>
    have hkeeps := he.keeps_locks (e.locks.releaseAll txn)
    exact ⟨hkeeps.content, effect_of_keeps rfl hkeeps (.of_onlyFor rfl rfl .releaseAll)⟩
  | hasNext s =>
    unfold run
    rw [settles_bind]
    apply (Scan.settles_hasNext he s).mono
    intro _ e' hquiet
    exact ⟨hquiet.content, effect_of_keeps rfl hquiet.toKeeps (.of_gains rfl hquiet.locks)⟩
  | next s =>
    unfold run
    rw [settles_bind]
    apply (Scan.settles_next he s).mono
    intro _ e' hquiet
    exact ⟨hquiet.content, effect_of_keeps rfl hquiet.toKeeps (.of_gains rfl hquiet.locks)⟩
  | drop h =>
    unfold run
    rw [settles_bind, settles_get]
    cases hheld : e.cache.isHeld h with
    | false => exact ⟨fun _ => rfl, effect_of_keeps rfl he.keeps_refl (.of_eq rfl)⟩
    | true =>
      have hkeeps := he.keeps_copies (he.sound.letGo hheld) (he.sound.copy?_letGo hheld)
      exact ⟨hkeeps.content, effect_of_keeps rfl hkeeps (.of_eq rfl)⟩

/-- What a call does to the contents, put for the state after it. -/
theorem contentSpec (he : e.Consistent) (c : Call) : c.ContentSpec (c.reply e) e (c.after e) := (settles_run he c).1

/-- The effect of a call, put for the state after it. -/
theorem effect (he : e.Consistent) (c : Call) : c.Effect (c.reply e) e (c.after e) := (settles_run he c).2

theorem Effect.consistent {reply : Reply} (h : c.Effect reply e e') : e'.Consistent := by
  have hrows := h.rows
  split at hrows
  · exact hrows.consistent
  · obtain ⟨_, _, _, _, _, hwrites⟩ := hrows
    exact hwrites.consistent

end Call

end HeapStore
