import HeapStore.Engine.Scan
import HeapStore.Proofs.Engine.Pages

/-!
# What a scan changes

A scan only reads: whatever it comes to, all contents stay, and of the locks it adds at most some of its own
transaction's (`Scan.settles_seek`). Its search goes from page to page; `look` is what it does on one.
-/

namespace HeapStore.Scan

open Engine

variable {e : Engine} {table : TableId} {txn : TxnId}

/-- What the search does on the page of a position: it ends with an answer, or it goes on behind the
page. -/
def look (table : TableId) (txn : TxnId) (pos : Position) :
    StateM Engine (Option (Except StorageError (Option Tuple) × Position)) := do
  let p : PageId := ⟨table, pos.page⟩
  let heldBefore := (← get).locks.holds p txn
  let fetched ← ExceptT.run do
    let h ← Op.getPage txn p .readOnly
    Op.page h
  match fetched with
  | .error cause => return some (.error cause, pos)
  | .ok page =>
    let found := (page.nextUsed? pos.slot).bind fun slot => (page.tuple? slot).map (slot, ·)
    match found with
    | some (slot, tuple) => return some (.ok (some tuple), { pos with slot })
    | none =>
      if page.isEmpty && !heldBefore then
        modify fun e => { e with locks := (e.locks.release p txn).2 }
      return none

/-- The search looks at one page after the other. -/
theorem search_succ (table : TableId) (txn : TxnId) (pages : Nat) (pos : Position) :
    search table txn (pages + 1) pos = (do
      match ← look table txn pos with
      | some answer => return answer
      | none => search table txn pages ⟨pos.page + 1, 0⟩) := by
  rw [search, look]
  simp only [bind_assoc]
  congr
  funext e
  congr
  funext fetched
  cases fetched with
  | error cause => simp
  | ok page =>
    dsimp only
    cases (page.nextUsed? pos.slot).bind fun slot => (page.tuple? slot).map (slot, ·) with
    | some found => simp
    | none => cases page.isEmpty && !e.locks.holds ⟨table, pos.page⟩ txn <;> simp

theorem settles_look (he : e.Consistent) (table : TableId) (txn : TxnId) (pos : Position) :
    Settles (look table txn pos) e fun _ e' => Quiet txn e e' := by
  unfold look
  simp only [settles_bind, settles_get, settles_run, ends_bind]
  refine (Op.ends_getPage he txn ⟨table, pos.page⟩ .readOnly).mono (fun h e₁ hget => ?_)
    fun _ _ hquiet => hquiet
  obtain ⟨hquiet, hhandle, -⟩ := hget
  obtain ⟨page, hpage, -⟩ := hquiet.consistent.sound.exists_copy hhandle
  rw [Op.ends_page hpage]
  cases (page.nextUsed? pos.slot).bind fun slot => (page.tuple? slot).map (slot, ·) with
  | some found => exact hquiet
  | none =>
    cases hbefore : e.locks.holds ⟨table, pos.page⟩ txn with
    | true => rw [Bool.not_true, Bool.and_false]; exact hquiet
    | false =>
      cases page.isEmpty with
      | true => exact hquiet.release hbefore
      | false => exact hquiet

theorem settles_search (he : e.Consistent) (table : TableId) (txn : TxnId) (pages : Nat) (pos : Position) :
    Settles (search table txn pages pos) e fun _ e' => Quiet txn e e' := by
  induction pages generalizing e pos with
  | zero => exact he.quiet_refl txn
  | succ pages ih =>
    rw [search_succ, settles_bind]
    apply (settles_look he table txn pos).mono
    intro answer e₁ hlook
    cases answer with
    | some answer => exact hlook
    | none => exact (ih hlook.consistent ⟨pos.page + 1, 0⟩).mono fun _ _ h => hlook.trans h

theorem settles_seek (he : e.Consistent) (s : Scan) : Settles s.seek e fun _ e' => Quiet s.txn e e' := by
  unfold seek
  rw [settles_bind, settles_get]
  cases e.store.file? s.file with
  | none => exact he.quiet_refl s.txn
  | some f => exact settles_search he f.table s.txn (f.numPages - s.position.page) s.position

theorem settles_hasNext (he : e.Consistent) (s : Scan) :
    Settles s.hasNext e fun _ e' => Quiet s.txn e e' := by
  unfold hasNext
  cases s.isOpen with
  | false => exact he.quiet_refl s.txn
  | true => exact settles_seek he s

theorem settles_next (he : e.Consistent) (s : Scan) : Settles s.next e fun _ e' => Quiet s.txn e e' := by
  unfold next
  cases s.isOpen with
  | false => exact he.quiet_refl s.txn
  | true =>
    simp only [Bool.not_true, Bool.false_eq_true, if_false, settles_bind]
    apply (settles_seek he s).mono
    intro answer e' hquiet
    obtain ⟨result, s'⟩ := answer
    cases result with
    | error cause => exact hquiet
    | ok found => cases found <;> exact hquiet

end HeapStore.Scan
