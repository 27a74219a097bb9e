import HeapStore.Proofs.Engine.Runs

/-!
# A commit is durable

`Pending` records for each transaction which slots it changed since it last completed, and the row that it
left in each; it is kept by the observer of a run, from the answers of the calls. In a run in which nobody
gives up a lock before the end of the transaction (`StrictRun`), a transaction still owns all pages it
changed: it holds them exclusively, they store what it left there, and no cached copy of them counts as
changed by anybody else (`Pending.Owned`, `StrictRun.owned`). So the commit, which writes the pages that
count as changed by the transaction, misses none of them (`StrictRun.commit_durable`).
-/

namespace HeapStore

/-- The slots that each transaction changed since it last completed, with the rows that it left there. -/
abbrev Pending := TxnId → PageId → Nat → Option (Option (List Value))

namespace Call

/-- Is this the end of the transaction? -/
def completes : Call → TxnId → Bool
  | commit txn, u | abort txn, u => txn = u
  | _, _ => false

/-- Does the call give up a lock of a transaction that goes on? -/
def isRelease : Call → Bool
  | releasePage _ _ => true
  | _ => false

end Call

/-- What is recorded after a call and its answer. -/
def Pending.after (w : Pending) (c : Call) (reply : Reply) : Pending := fun u p slot =>
  if c.completes u then none
  else
    match c.change? reply with
    | some (r, row) => if c.txn? = some u ∧ r.page = p ∧ r.slot.toNat = slot then some row else w u p slot
    | none => w u p slot

/-- The runs in which locks are released only when their transaction completes, with what is recorded of
them. -/
inductive StrictRun : Engine → Pending → Prop
  | start (disk : Disk) (settings : Settings) : StrictRun (.start disk settings) fun _ _ _ => none
  | addTable {e : Engine} {w : Pending} (name path : String) (schema : Schema) (h : StrictRun e w)
      (hnew : e.NewPath path) : StrictRun ((Op.addTable name path schema).run.run e).2 w
  | call {e : Engine} {w : Pending} (c : Call) (h : StrictRun e w) (hc : c.isRelease = false) :
      StrictRun (c.after e) (w.after c (c.reply e))

open Engine

variable {e e' : Engine} {w : Pending} {u : TxnId} {p : PageId} {slot : Nat} {row : Option (List Value)}

theorem StrictRun.reachable (h : StrictRun e w) : Reachable e := by
  induction h with
  | start disk settings => exact .start disk settings
  | addTable name path schema h hnew ih => exact .addTable name path schema ih hnew
  | call c h hc ih => exact .call c ih

/-- The transaction owns the page: nobody else may touch it, it stores the row, and nobody else counts as
having changed it. -/
structure Engine.Owns (e : Engine) (u : TxnId) (p : PageId) (slot : Nat) (row : Option (List Value)) :
    Prop where
  lock : e.locks.mode? p u = some .exclusive
  row : ∃ rows, e.content p = .ok rows ∧ rows[slot]? = some row
  mark : ∀ page, e.cache.copy? p = some page → page.dirtiedBy = none ∨ page.dirtiedBy = some u

/-- Every transaction owns the pages that it changed since it last completed. -/
def Pending.Owned (w : Pending) (e : Engine) : Prop :=
  ∀ u p slot row, w u p slot = some row → e.Owns u p slot row

theorem Engine.Owns.mark_of_dirty (h : e.Owns u p slot row)
    (hdirty : ∀ page, e'.cache.copy? p = some page → page.dirtiedBy ≠ none → e.cache.copy? p = some page) :
    ∀ page, e'.cache.copy? p = some page → page.dirtiedBy = none ∨ page.dirtiedBy = some u := by
  intro page hcopy
  cases hmark : page.dirtiedBy with
  | none => exact Or.inl rfl
  | some v =>
    rw [← hmark]
    exact h.mark page (hdirty page hcopy (by simp [hmark]))

theorem Engine.Prepared.content_of_ok {txn : TxnId} {q : PageId} {rows : List (Option (List Value))}
    (h : Prepared txn q e e') (hp : e.content p = .ok rows) : e'.content p = .ok rows := by
  cases h with
  | inl hquiet => rw [hquiet.content, hp]
  | inr hgrows =>
    have hne : p ≠ q := by
      rintro rfl
      rw [hgrows.1.missing] at hp
      simp at hp
    rw [hgrows.1.content p hne, hp]

theorem Engine.SameRows.content_of_ok {rows : List (Option (List Value))} (h : SameRows e e')
    (hp : e.content p = .ok rows) : e'.content p = .ok rows := by
  cases h p with
  | inl hsame => rw [hsame, hp]
  | inr hnew =>
    rw [hnew.1] at hp
    simp at hp

namespace Call

variable {c : Call} {reply : Reply}

theorem LocksAfter.exclusive {t t' : LockTable} (h : c.LocksAfter t t') (hc : c.isRelease = false)
    (hends : c.completes u = false) (hx : t.mode? p u = some .exclusive) :
    t'.mode? p u = some .exclusive := by
  cases hgives : c.givesUp with
  | false =>
    obtain ⟨held, hheld, hle⟩ := h.kept hgives u p _ hx
    rw [hheld, hle rfl]
  | true =>
    -- Only the end of another transaction is left.
    have hother : c.txn? ≠ some u := by
      cases c with
      | commit txn => simpa [completes, txn?] using hends
      | abort txn => simpa [completes, txn?] using hends
      | releasePage txn p => simp [isRelease] at hc
      | _ => simp [givesUp] at hgives
    rw [h.others u hother, hx]

theorem owns_of_writes {txn : TxnId} {old : Option (List Value)} {e₁ : Engine}
    (hwrites : Writes txn p slot old row e₁ e') : e'.Owns txn p slot row := by
  obtain ⟨rows, -, hold, hafter⟩ := hwrites.rows
  obtain ⟨page, hcopy, hmark⟩ := hwrites.mark
  have hlt := (List.getElem?_eq_some_iff.1 hold).1
  refine ⟨by rw [hwrites.locks, hwrites.owned], ⟨_, hafter, by simp [hlt]⟩, ?_⟩
  intro page' hcopy'
  rw [hcopy] at hcopy'
  obtain rfl := Option.some.inj hcopy'
  exact Or.inr hmark

/-- What is owned stays owned, through any call but one that ends the transaction or replaces this row. -/
theorem Effect.owns (h : c.Effect reply e e') (hs : e.locks.Safe) (hc : c.isRelease = false)
    (hends : c.completes u = false) (howns : e.Owns u p slot row)
    (hother : ∀ r row', c.change? reply = some (r, row') →
      ¬ (c.txn? = some u ∧ r.page = p ∧ r.slot.toNat = slot)) :
    e'.Owns u p slot row := by
  have hlock := h.locks.exclusive hc hends howns.lock
  obtain ⟨rows, hrows, hrow⟩ := howns.row
  have heffect := h.rows
  cases hchange : c.change? reply with
  | none =>
    rw [hchange] at heffect
    exact ⟨hlock, ⟨rows, heffect.rows.content_of_ok hrows, hrow⟩,
      howns.mark_of_dirty fun page => heffect.dirty p page⟩
  | some change =>
    obtain ⟨r, row'⟩ := change
    rw [hchange] at heffect
    obtain ⟨txn, old, e₁, htxn, hprepared, hwrites⟩ := heffect
    have hrows₁ := hprepared.content_of_ok hrows
    by_cases hp : p = r.page
    · -- Two transactions cannot both hold the page exclusively.
      have howner : e'.locks.mode? p txn = some .exclusive := by rw [hp, hwrites.locks, hwrites.owned]
      obtain rfl : txn = u := (h.locks.safe hs).eq_of_exclusive hlock howner
      obtain ⟨rows', hbefore, -, hafter⟩ := hwrites.rows
      rw [← hp, hrows₁] at hbefore
      obtain rfl := Except.ok.inj hbefore
      have hne : r.slot.toNat ≠ slot := fun heq => hother r row' hchange ⟨htxn, hp.symm, heq⟩
      refine ⟨hlock, ⟨_, hp ▸ hafter, by rw [List.getElem?_set_ne hne, hrow]⟩, ?_⟩
      exact hp ▸ (owns_of_writes hwrites).mark
    · refine ⟨hlock, ⟨rows, (hwrites.others p hp).trans hrows₁, hrow⟩, howns.mark_of_dirty ?_⟩
      intro page hcopy
      rw [hwrites.copies p hp] at hcopy
      exact hprepared.dirty p page hcopy

theorem Effect.owned (h : c.Effect reply e e') (hs : e.locks.Safe) (hc : c.isRelease = false)
    (howned : w.Owned e) : (w.after c reply).Owned e' := by
  intro u p slot row hw
  unfold Pending.after at hw
  split at hw
  · simp at hw
  · next hends =>
    have hends : c.completes u = false := by simpa using hends
    split at hw
    · next r row' hchange =>
      split at hw
      · next hself =>
        obtain ⟨htxn, rfl, rfl⟩ := hself
        obtain rfl := Option.some.inj hw
        have heffect := h.rows
        rw [hchange] at heffect
        obtain ⟨txn, old, e₁, htxn', -, hwrites⟩ := heffect
        rw [htxn] at htxn'
        obtain rfl := Option.some.inj htxn'
        exact owns_of_writes hwrites
      · next hother =>
        refine h.owns hs hc hends (howned u p slot row hw) fun r₁ row₁ hchange₁ => ?_
        rw [hchange] at hchange₁
        obtain ⟨rfl, -⟩ := Prod.mk.inj (Option.some.inj hchange₁)
        exact hother
    · next hchange =>
      refine h.owns hs hc hends (howned u p slot row hw) fun r row' hchange' => ?_
      rw [hchange] at hchange'
      simp at hchange'

end Call

theorem Pending.Owned.addTable (howned : w.Owned e) (he : e.Consistent) (name : String) {path : String}
    (schema : Schema) (hnew : e.NewPath path) : w.Owned ((Op.addTable name path schema).run.run e).2 := by
  refine ((Op.ends_addTable he name schema hnew).mono (fun _ e' h => ?_) fun _ e' h => ?_).always
  · obtain ⟨-, hcache, hlocks, hcontent⟩ := h
    intro u p slot row hw
    obtain ⟨hlock, ⟨rows, hrows, hrow⟩, hmark⟩ := howned u p slot row hw
    refine ⟨by rw [hlocks, hlock], ⟨rows, ?_, hrow⟩, by rw [hcache]; exact hmark⟩
    rw [hcontent, hrows]
    intro hfile
    -- A page of no table has no copy and cannot be read.
    cases hcopy : e.cache.copy? p with
    | some page =>
      obtain ⟨-, f, hf, -⟩ := he.fits p page hcopy
      rw [hfile] at hf
      simp at hf
    | none =>
      rw [content_of_not_cached hcopy, he.stored_of_none hfile] at hrows
      simp [Except.map] at hrows
  · rw [h]
    exact howned

theorem StrictRun.owned (h : StrictRun e w) : w.Owned e := by
  induction h with
  | start disk settings =>
    intro u p slot row hw
    simp at hw
  | addTable name path schema h hnew ih => exact ih.addTable h.reachable.consistent name schema hnew
  | call c h hc ih => exact (Call.effect h.reachable.consistent c).owned h.reachable.safe hc ih

/-- A commit succeeds, and every page that the transaction changed since it last completed is on the disk
then, as it is stored: also the file by itself has the rows that the transaction left there. -/
theorem StrictRun.commit_durable (h : StrictRun e w) (txn : TxnId) :
    (Call.commit txn).reply e = .ended (.ok ()) ∧
      ∀ p slot row, w txn p slot = some row →
        ∃ page, ((Call.commit txn).after e).stored p = .ok page ∧
          ((Call.commit txn).after e).content p = .ok page.rows ∧
          e.content p = .ok page.rows ∧ page.rows[slot]? = some row := by
  have hcommit : Settles (Call.commit txn).run e fun reply e' => reply = .ended (.ok ()) ∧ e.Keeps e' ∧
      ∀ q page, e'.cache.copy? q = some page → page.dirtiedBy ≠ some txn := by
    unfold Call.run
    rw [settles_bind, settles_run]
    apply (Op.ends_commit h.reachable.consistent txn).mono_ok
    intro _ e' h
    exact ⟨rfl, h.1, h.2.2⟩
  obtain ⟨hreply, hkeeps, hclean⟩ := hcommit
  refine ⟨hreply, ?_⟩
  intro p slot row hw
  obtain ⟨-, ⟨rows, hrows, hrow⟩, hmark⟩ := h.owned txn p slot row hw
  have hafter : ((Call.commit txn).after e).content p = .ok rows := (hkeeps.content p).trans hrows
  -- Whether the page is cached or not, its file has the rows.
  have hstored : (((Call.commit txn).after e).stored p).map (·.rows) = .ok rows := by
    cases hcopy : ((Call.commit txn).after e).cache.copy? p with
    | none => rw [← content_of_not_cached hcopy, hafter]
    | some page =>
      rw [content_of_copy hcopy] at hafter
      obtain rfl := Except.ok.inj hafter
      refine hkeeps.consistent.clean p page hcopy ?_
      cases hdirty : page.dirtiedBy with
      | none => rfl
      | some v =>
        have hbefore := hkeeps.dirty p page hcopy (by simp [hdirty])
        cases hmark page hbefore with
        | inl hnone => rw [← hdirty, hnone]
        | inr htxn => exact absurd htxn (hclean p page hcopy)
  cases hpage : ((Call.commit txn).after e).stored p with
  | error cause =>
    rw [hpage] at hstored
    simp [Except.map] at hstored
  | ok page =>
    rw [hpage] at hstored
    obtain rfl := Except.ok.inj hstored
    exact ⟨page, rfl, hafter, hrows, hrow⟩

set_option maxRecDepth 50000 in
/-- A transaction that stored a tuple on each of two pages, the first of which was evicted. -/
theorem apple_after_commit :
    ∃ page, ((Call.commit 1).after Sample.twoWords).stored ⟨0, 0⟩ = .ok page ∧
      page.rows[0]? = some (some [.string "apple"]) := by
  have hstart := StrictRun.start .blank { poolPages := 1 }
  have htable := hstart.addTable "words" "words" Sample.schema (newPath_start _ _ _)
  have htwo := (htable.call Sample.insertApple rfl).call Sample.insertPear rfl
  obtain ⟨page, hstored, -, -, hrow⟩ := (StrictRun.commit_durable htwo 1).2 ⟨0, 0⟩ 0 (some [.string "apple"])
    (by decide +kernel)
  exact ⟨page, hstored, hrow⟩

end HeapStore
