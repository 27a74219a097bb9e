import HeapStore.Proofs.Engine.Acts

/-!
# Runs of an engine

An engine is started on some disk, and from then on things happen to it (`Engine.Event`): there are calls, for any
transactions and in any order, tables are registered, pages are dropped from the pool, and the locks change in whatever
way. Callers may also do something with the page objects that they hold (`Engine.Use`). `Engine.Run` are the engines
that there can be. Which events may happen, and what callers may do, are parameters of it; each kind of run that is
dealt with is an instance. If tables have files of their own, all these engines are consistent (`Run.consistent`).

The engines that are `Reachable` went through calls and registrations only. Their locks are safe (`Reachable.safe`),
and the next call changes their contents as `Call.ContentSpec` says (`Reachable.contents_after_call`).
-/

namespace HeapStore

namespace Engine

variable {e : Engine}

/-! ### Events -/

/-- What can happen to an engine whose pages are changed through the pool only. -/
inductive Event where
  | call (c : Call)
  | register (name path : String) (schema : Schema)
  /-- A page is dropped from the pool without being written. -/
  | discard (p : PageId)
  /-- Transactions begin, and locks are taken, given up and waited for, in whatever way. -/
  | transact (locks : LockTable) (nextTxn : TxnId)

theorem Consistent.addTable (he : e.Consistent) (name : String) {path : String} (schema : Schema)
    (hnew : e.NewPath path) : ((Op.addTable name path schema).run.run e).2.Consistent :=
  ((Op.ends_addTable he name schema hnew).mono (fun _ _ h => h.1) fun _ _ h => h ▸ he).always

theorem Consistent.locks_addTable (he : e.Consistent) (name : String) {path : String} (schema : Schema)
    (hnew : e.NewPath path) : ((Op.addTable name path schema).run.run e).2.locks = e.locks :=
  ((Op.ends_addTable he name schema hnew).mono (fun _ _ h => h.2.2.1) fun _ _ h => by rw [h]).always

namespace Event

variable {ev : Event}

def after : Event → Engine → Engine
  | call c, e => c.after e
  | register name path schema, e => ((Op.addTable name path schema).run.run e).2
  | discard p, e => ((Op.discard p).run.run e).2
  | transact locks nextTxn, e => { e with locks, nextTxn }

/-- A table is registered with a file that is none of the tables'. -/
def Allowed : Event → Engine → Prop
  | register _ path _, e => e.NewPath path
  | _, _ => True

/-- There are only calls, and registrations of tables, each with a file of its own. -/
def Plain : Event → Engine → Prop
  | call _, _ => True
  | register _ path _, e => e.NewPath path
  | discard _, _ | transact _ _, _ => False

theorem Plain.allowed (h : ev.Plain e) : ev.Allowed e := by
  cases ev with
  | call c => trivial
  | register name path schema => exact h
  | discard p => exact h.elim
  | transact locks nextTxn => exact h.elim

theorem keeps_transact (he : e.Consistent) (locks : LockTable) (nextTxn : TxnId) :
    e.Keeps ((transact locks nextTxn).after e) := he.keeps_of_same_store rfl rfl rfl

theorem consistent_after (he : e.Consistent) (hev : ev.Allowed e) : (ev.after e).Consistent := by
  cases ev with
  | call c => exact (Call.effect he c).consistent
  | register name path schema => exact he.addTable name schema hev
  | discard p => exact he.of_fewer_copies (he.sound.remove p) fun q page => he.sound.copy?_of_copy?_remove p
  | transact locks nextTxn => exact (keeps_transact he locks nextTxn).consistent

end Event

/-! ### Runs -/

/-- What callers may do with an object that they hold, besides reading its page and letting it go. -/
inductive Use where
  /-- They hold it once more. -/
  | again
  /-- They change its page, and mark it. -/
  | edit

/-- The engines that there can be while only such events happen as are allowed, and callers make only such uses of the
objects that they hold. -/
inductive Run (allowed : Event → Engine → Prop) (uses : Use → Prop) : Engine → Prop
  | start (disk : Disk) (settings : Settings) : Run allowed uses (.start disk settings)
  | event {e : Engine} (ev : Event) (h : Run allowed uses e) (hev : allowed ev e) : Run allowed uses (ev.after e)
  | again {e : Engine} (huse : uses .again) (h : Handle) (hrun : Run allowed uses e) (hheld : e.cache.isHeld h = true) :
      Run allowed uses ((Op.hold h).run.run e).2
  | edit {e : Engine} {h : Handle} {page : HeapPage} (huse : uses .edit) (c : HeapPage.Change) (txn : TxnId)
      (hrun : Run allowed uses e) (hheld : e.cache.isHeld h = true) (hpage : e.cache.page? h = some page) :
      Run allowed uses ((Op.setPage h ((page.change c).markDirty txn)).run.run e).2

variable {allowed allowed' : Event → Engine → Prop} {uses uses' : Use → Prop}

theorem act_hold (he : e.Consistent) (h : Handle) : Act e ((Op.hold h).run.run e).2 :=
  .fewer (he.sound.hold h) fun p _ hcopy => (Cache.copy?_hold h p).symm.trans hcopy

theorem Run.mono (hallowed : ∀ ev e, allowed ev e → allowed' ev e) (huses : ∀ use, uses use → uses' use)
    (h : Run allowed uses e) : Run allowed' uses' e := by
  induction h with
  | start disk settings => exact .start disk settings
  | event ev _ hev ih => exact .event ev ih (hallowed _ _ hev)
  | again huse h _ hheld ih => exact .again (huses _ huse) h ih hheld
  | edit huse c txn _ hheld hpage ih => exact .edit (huses _ huse) c txn ih hheld hpage

theorem Run.consistent (hallowed : ∀ ev e, allowed ev e → ev.Allowed e) (h : Run allowed uses e) : e.Consistent := by
  induction h with
  | start disk settings => exact consistent_start disk settings
  | event ev _ hev ih => exact ev.consistent_after ih (hallowed _ _ hev)
  | again _ h _ _ ih => exact (act_hold ih h).consistent ih
  | edit _ c txn _ hheld hpage ih => exact (act_edit ih c txn hheld hpage).consistent ih

/-- The engines that calls, for any transactions and in any order, can lead to. -/
abbrev Reachable : Engine → Prop := Run Event.Plain fun _ => False

namespace Reachable

theorem addTable (name path : String) (schema : Schema) (h : Reachable e) (hnew : e.NewPath path) :
    Reachable ((Op.addTable name path schema).run.run e).2 := .event (.register name path schema) h hnew

theorem call (c : Call) (h : Reachable e) : Reachable (c.after e) := .event (.call c) h trivial

theorem consistent (h : Reachable e) : e.Consistent := Run.consistent (fun _ _ => Event.Plain.allowed) h

theorem safe (h : Reachable e) : e.locks.Safe := by
  induction h with
  | start disk settings => exact LockTable.safe_empty
  | @event e ev hrun hev ih =>
    have he : e.Consistent := Reachable.consistent hrun
    cases ev with
    | call c => exact (Call.effect he c).locks.safe ih
    | register name path schema =>
      have hlocks := he.locks_addTable name schema hev
      exact hlocks.symm ▸ ih
    | discard p => exact hev.elim
    | transact locks nextTxn => exact hev.elim
  | again huse => exact huse.elim
  | edit huse => exact huse.elim

end Reachable

end Engine

open Engine

namespace Sample

/-- Tuples so wide that a page holds one. -/
def schema : Schema := ⟨[⟨"word", .char 4000⟩]⟩

def apple : Tuple := ⟨schema, [.string "apple"], none, by decide⟩

def pear : Tuple := ⟨schema, [.string "pear"], none, by decide⟩

/-- A table without pages, and a pool of one page. -/
def noWord : Engine := ((Op.addTable "words" "words" schema).run.run (.start .blank { poolPages := 1 })).2

def insertApple : Call := .insert 1 0 apple false

def insertPear : Call := .insert 1 0 pear false

/-- One tuple, on a page that is cached and not on the disk yet. -/
def oneWord : Engine := insertApple.after noWord

/-- A second tuple, whose page has taken the place of the first one in the pool. -/
def twoWords : Engine := insertPear.after oneWord

theorem reachable_noWord : Reachable noWord :=
  .addTable "words" "words" schema (.start .blank { poolPages := 1 }) (newPath_start _ _ _)

theorem reachable_oneWord : Reachable oneWord := .call insertApple reachable_noWord

end Sample

/-- Caching neither loses nor invents an update: on whatever state calls have led to, the next call changes
the contents of the pages exactly as it says it does. -/
theorem Engine.Reachable.contents_after_call {e : Engine} (h : Reachable e) (c : Call) :
    c.ContentSpec (c.reply e) e (c.after e) :=
  Call.contentSpec h.consistent c

set_option maxRecDepth 50000 in
/-- The second insert evicts the page of the first one, which is stored all the same. -/
theorem contents_after_eviction :
    Sample.insertPear.ContentSpec (Sample.insertPear.reply Sample.oneWord) Sample.oneWord Sample.twoWords ∧
      Sample.twoWords.cache.isCached ⟨0, 0⟩ = false ∧
      Sample.twoWords.content ⟨0, 0⟩ = .ok [some [.string "apple"]] :=
  ⟨Sample.reachable_oneWord.contents_after_call Sample.insertPear, by decide +kernel⟩

end HeapStore
