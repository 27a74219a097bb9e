import HeapStore.Proofs.Engine.Fresh
import HeapStore.Proofs.Engine.Runs
import HeapStore.Proofs.Engine.TwinRows

/-!
# How many pages are cached makes no difference

A `Caller` chooses each call by what it has seen before. What it sees of an answer is the page that an object
shows, the record that a tuple is, or the cause of a failure (`Reply.seen`); it sees neither which object
shows a page, nor whether the page is written yet. It does not hold objects from one call to the next, does
not ask for single pages to be written, and deletes only what the call directly before has shown to it
(`Call.isPlain`).

One call does the same on twins (`Call.both_run`), and so does a whole run (`Caller.run_twins`). So a caller
cannot tell the capacity of the cache, nor can who reads the files once everything is written
(`Caller.capacity_unobservable`).
-/

namespace HeapStore

open Engine

/-! ### What is seen -/

/-- What a caller sees of an answer. -/
inductive Seen where
  | page (outcome : Except StorageError (Option HeapPage.View))
  | insertion (tuple : Tuple) (outcome : Except StorageError (Option HeapPage.View))
  | flushed (outcome : Except StorageError Bool)
  | ended (outcome : Except StorageError Unit)
  | more (outcome : Except StorageError Bool) (s : Scan)
  | row (outcome : Except StorageError (Option RecordId × List Value)) (s : Scan)

/-- Why the call failed. -/
def Seen.cause? : Seen → Option StorageError
  | page (.error cause) | insertion _ (.error cause) | flushed (.error cause) | ended (.error cause)
  | more (.error cause) _ | row (.error cause) _ => some cause
  | _ => none

/-- What the page object shows. -/
def Engine.view? (e : Engine) (h : Handle) : Option HeapPage.View := (e.cache.page? h).map (·.view)

/-- What is seen of an answer in the state after the call. -/
def Reply.seen (e : Engine) : Reply → Seen
  | handle outcome => .page (outcome.map e.view?)
  | insertion result => .insertion result.tuple (result.outcome.map e.view?)
  | flushed outcome => .flushed outcome
  | ended outcome => .ended outcome
  | more outcome s => .more outcome s
  | row outcome s => .row (outcome.map fun t => (t.recordId, t.values)) s

namespace Call

/-- The page that the call has shown to its caller, or of which it gave a record. -/
def shown? : Call → Seen → Option PageId
  | getPage _ p _ _, .page (.ok _) => some p
  | next _, .row (.ok (some r, _)) _ => some r.page
  | _, _ => none

/-- Does the call hold no object and write no single page, and does it delete from no page but the one that
was just shown? -/
def isPlain (shown : Option PageId) : Call → Bool
  | getPage _ _ _ keep | insert _ _ _ keep | delete _ none keep => !keep
  | delete _ (some r) keep => !keep && shown = some r.page
  | flushPage _ | drop _ => false
  | _ => true

end Call

/-- A caller chooses each call by what it has seen so far. -/
abbrev Caller := List Seen → Call

namespace Caller

/-- What the caller sees in so many calls, with the locks after each, and the state after the last. -/
def run (caller : Caller) : (calls : Nat) → (past : List Seen) → Engine → List (Seen × LockTable) × Engine
  | 0, _, e => ([], e)
  | calls + 1, past, e =>
    let call := caller past
    let e' := call.after e
    let seen := (call.reply e).seen e'
    let (later, last) := run caller calls (past ++ [seen]) e'
    ((seen, e'.locks) :: later, last)

/-- Are all these calls plain? -/
def isPlain (caller : Caller) :
    (calls : Nat) → (past : List Seen) → (shown : Option PageId) → Engine → Bool
  | 0, _, _, _ => true
  | calls + 1, past, shown, e =>
    let call := caller past
    let e' := call.after e
    let seen := (call.reply e).seen e'
    call.isPlain shown && isPlain caller calls (past ++ [seen]) (call.shown? seen) e'

end Caller

/-! ### One call -/

variable {e e' s s' : Engine} {p : PageId} {h h' : Handle}

theorem Engine.Shared.view?_eq (hs : Shared p h h' e e') : e'.view? h' = e.view? h := by
  obtain ⟨v, ⟨-, page, hpage, -, hv⟩, -, page', hpage', -, hv'⟩ := hs
  rw [view?, view?, hpage, hpage', Option.map_some, Option.map_some, hv, hv']

namespace Call

/-- What both sides answer to a call looks alike, and is no complaint about room. -/
structure SameReply (c : Call) (reply reply' : Reply) (s s' : Engine) : Prop where
  twins : Twins s s'
  seen : reply'.seen s' = reply.seen s
  room : (reply.seen s).cause? ≠ some .bufferPoolFull
  shown : ∀ p, c.shown? (reply.seen s) = some p → CachedBoth p s s'

theorem hold_false (outcome : Except StorageError Handle) : hold false outcome = pure () := by
  cases outcome <;> rfl

theorem shown?_of_cause (c : Call) {seen : Seen} {cause : StorageError} (h : seen.cause? = some cause) :
    c.shown? seen = none := by
  unfold shown?
  split <;> simp [Seen.cause?] at h ⊢

theorem SameReply.failed {c : Call} {reply reply' : Reply} {cause : StorageError} (h : Twins s s')
    (hseen : reply'.seen s' = reply.seen s) (hcause : (reply.seen s).cause? = some cause)
    (hroom : cause ≠ .bufferPoolFull) : SameReply c reply reply' s s' := by
  refine ⟨h, hseen, ?_, fun q hq => ?_⟩
  · rw [hcause]
    exact fun hfull => hroom (Option.some.inj hfull)
  · rw [shown?_of_cause c hcause] at hq
    simp at hq

theorem SameReply.handle {c : Call} {x x' : Except StorageError Handle}
    (hx : Outcomes (fun h h' s s' => Twins s s' ∧ Shared p h h' s s') x x' s s')
    (hshown : ∀ q, c.shown? ((Reply.handle x).seen s) = some q → q = p) :
    SameReply c (.handle x) (.handle x') s s' := by
  obtain ⟨h, h', rfl, rfl, htwins, hs⟩ | ⟨cause, rfl, rfl, hroom, htwins⟩ := outcomes_iff.1 hx
  · refine ⟨htwins, ?_, by simp [Reply.seen, Seen.cause?, Except.map], fun q hq => ?_⟩
    · show Seen.page (.ok (s'.view? h')) = .page (.ok (s.view? h))
      rw [hs.view?_eq]
    · obtain rfl := hshown q hq
      exact hs.cachedBoth
  · exact .failed htwins rfl rfl hroom

theorem SameReply.ended {c : Call} {x x' : Except StorageError Unit}
    (hx : Outcomes (fun _ _ s s' => Twins s s') x x' s s') (hshown : ∀ outcome, c.shown? (.ended outcome) = none) :
    SameReply c (.ended x) (.ended x') s s' := by
  obtain ⟨⟨⟩, ⟨⟩, rfl, rfl, htwins⟩ | ⟨cause, rfl, rfl, hroom, htwins⟩ := outcomes_iff.1 hx
  · refine ⟨htwins, rfl, by simp [Reply.seen, Seen.cause?], fun q hq => ?_⟩
    rw [Reply.seen, hshown] at hq
    simp at hq
  · exact .failed htwins rfl rfl hroom

theorem both_insert (h : Twins e e') (txn : TxnId) (table : TableId) (t : Tuple) :
    Both (insert txn table t false).run (insert txn table t false).run e e'
      (SameReply (insert txn table t false)) := by
  unfold run
  simp only [hold_false, pure_bind]
  refine both_bind.2 ((Op.both_insert h txn table t).mono ?_)
  rintro ⟨_, x⟩ ⟨stored, x'⟩ s s' ⟨rfl, hx⟩
  obtain ⟨h₁, h₂, rfl, rfl, htwins, q, hs⟩ | ⟨cause, rfl, rfl, hroom, htwins⟩ := outcomes_iff.1 hx
  · refine ⟨htwins, ?_, by simp [Reply.seen, Seen.cause?, Except.map], fun q hq => by simp [shown?] at hq⟩
    show Seen.insertion stored (.ok (s'.view? h₂)) = .insertion stored (.ok (s.view? h₁))
    rw [hs.view?_eq]
  · exact .failed htwins rfl rfl hroom

theorem both_hasNext (h : Twins e e') (scan : Scan) :
    Both (hasNext scan).run (hasNext scan).run e e' (SameReply (hasNext scan)) := by
  unfold run
  refine both_bind.2 ((Scan.both_hasNext h scan).mono ?_)
  rintro ⟨x, _⟩ ⟨x', later⟩ s s' ⟨rfl, hx⟩
  obtain ⟨more, more', rfl, rfl, rfl, htwins⟩ | ⟨cause, rfl, rfl, hroom, htwins⟩ := outcomes_iff.1 hx
  · exact ⟨htwins, rfl, by simp [Reply.seen, Seen.cause?], fun q hq => by simp [shown?] at hq⟩
  · exact .failed htwins rfl rfl hroom

theorem both_next (h : Twins e e') (scan : Scan) :
    Both (next scan).run (next scan).run e e' (SameReply (next scan)) := by
  unfold run
  refine both_bind.2 ((Scan.both_next h scan).mono ?_)
  rintro ⟨x, _⟩ ⟨x', later⟩ s s' ⟨rfl, hx⟩
  obtain ⟨t, t', rfl, rfl, hsame⟩ | ⟨cause, rfl, rfl, hroom, htwins⟩ := outcomes_iff.1 hx
  · obtain ⟨htwins, hvalues, r, hr, hr', hcached⟩ := hsame
    refine ⟨htwins, ?_, by simp [Reply.seen, Seen.cause?, Except.map], fun q hq => ?_⟩
    · show Seen.row (.ok (t'.recordId, t'.values)) later = .row (.ok (t.recordId, t.values)) later
      rw [hr, hr', hvalues]
    · change shown? (next scan) (.row (.ok (t.recordId, t.values)) later) = some q at hq
      rw [hr] at hq
      obtain rfl := Option.some.inj hq
      exact hcached
  · exact .failed htwins rfl rfl hroom

theorem both_run {shown : Option PageId} (h : Twins e e') (hshown : ∀ p, shown = some p → CachedBoth p e e')
    (c : Call) (hc : c.isPlain shown = true) : Both c.run c.run e e' (SameReply c) := by
  cases c with
  | getPage txn p access keep =>
    obtain rfl : keep = false := by simpa [isPlain] using hc
    unfold run
    simp only [hold_false, pure_bind]
    refine both_bind.2 (Both.mono (Op.together_getPage h txn p access) fun x x' s s' hx => ?_)
    refine SameReply.handle hx fun q hq => ?_
    cases x with
    | ok h₁ => exact (Option.some.inj hq).symm
    | error cause => simp [Reply.seen, shown?, Except.map] at hq
  | insert txn table t keep =>
    obtain rfl : keep = false := by simpa [isPlain] using hc
    exact both_insert h txn table t
  | delete txn r keep => cases r with
    | none =>
      obtain rfl : keep = false := by simpa [isPlain] using hc
      exact .failed h rfl rfl (by simp)
    | some r =>
      obtain ⟨rfl, hpage⟩ : keep = false ∧ shown = some r.page := by simpa [isPlain] using hc
      unfold run
      simp only [hold_false, pure_bind]
      refine both_bind.2 (Both.mono (Op.together_delete h txn (hshown r.page hpage)) fun x x' s s' hx => ?_)
      exact SameReply.handle hx fun q hq => by simp [shown?] at hq
  | releasePage txn p =>
    exact SameReply.ended (by exact h.withLocks fun locks => (locks.release p txn).2) fun _ => rfl
  | flushPage p => simp [isPlain] at hc
  | flushTxn txn =>
    refine both_bind.2 (Both.mono (Op.together_flushTxn h txn) fun x x' s s' hx => ?_)
    exact .ended hx fun _ => rfl
  | flushAll =>
    refine both_bind.2 (Both.mono (Op.together_flushAll h) fun x x' s s' hx => ?_)
    exact .ended hx fun _ => rfl
  | commit txn =>
    refine both_bind.2 (Both.mono (Op.together_commit h txn) fun x x' s s' hx => ?_)
    exact .ended hx fun _ => rfl
  | abort txn =>
    exact SameReply.ended (by exact h.withLocks (·.releaseAll txn)) fun _ => rfl
  | hasNext scan => exact both_hasNext h scan
  | next scan => exact both_next h scan
  | drop h => simp [isPlain] at hc

end Call

/-! ### Runs -/

/-- A caller sees the same on twins, whatever it calls, and leaves twins behind. -/
theorem Caller.run_twins (caller : Caller) (calls : Nat) (past : List Seen) {shown : Option PageId}
    (h : Twins e e') (hshown : ∀ p, shown = some p → CachedBoth p e e')
    (hplain : caller.isPlain calls past shown e = true) :
    (caller.run calls past e').1 = (caller.run calls past e).1 ∧
      Twins (caller.run calls past e).2 (caller.run calls past e').2 ∧
      ∀ entry ∈ (caller.run calls past e).1, entry.1.cause? ≠ some .bufferPoolFull := by
  induction calls generalizing past shown e e' with
  | zero => exact ⟨rfl, h, by simp [run]⟩
  | succ calls ih =>
    rw [isPlain, Bool.and_eq_true] at hplain
    obtain ⟨hcall, hlater⟩ := hplain
    let seen := ((caller past).reply e).seen ((caller past).after e)
    obtain ⟨htwins, hseen, hroom, hnext⟩ := Call.both_run h hshown (caller past) hcall
    obtain ⟨hsame, hlast, hrooms⟩ := ih (past ++ [seen]) htwins hnext hlater
    have hseen' : ((caller past).reply e').seen ((caller past).after e') = seen := hseen
    have hlocks : ((caller past).after e').locks = ((caller past).after e).locks := htwins.locks
    simp only [run, hseen', hlocks]
    refine ⟨congrArg _ hsame, hlast, ?_⟩
    rintro entry hentry
    cases List.mem_cons.1 hentry with
    | inl heq => exact heq ▸ hroom
    | inr hmem => exact hrooms entry hmem

/-! ### Files -/

/-- Bytes that agree block by block, and behind the blocks, are the same. -/
theorem eq_of_blocks {bytes bytes' : List UInt8} {size blocks : Nat}
    (hblocks : ∀ n < blocks, (bytes.drop (n * size)).take size = (bytes'.drop (n * size)).take size)
    (htail : bytes.drop (blocks * size) = bytes'.drop (blocks * size)) : bytes = bytes' := by
  induction blocks with
  | zero => simpa using htail
  | succ blocks ih =>
    refine ih (fun n hn => hblocks n (Nat.lt_succ_of_lt hn)) ?_
    rw [← List.take_append_drop size (bytes.drop (blocks * size)),
      ← List.take_append_drop size (bytes'.drop (blocks * size)), hblocks blocks (Nat.lt_succ_self blocks),
      List.drop_drop, List.drop_drop, ← Nat.succ_mul, htail]

/-- Twins without changed copies have the same files. -/
theorem Engine.Twins.contents?_eq (h : Twins e e') (hclean : ∀ q, e.cache.changed? q = none)
    (hclean' : ∀ q, e'.cache.changed? q = none) (file : List String) :
    e'.store.disk.contents? file = e.store.disk.contents? file := by
  by_cases htable : ∃ t f, e.file? t = some f ∧ f.path = file
  · obtain ⟨t, f, hf, rfl⟩ := htable
    have hcontents : e'.store.disk.contents f.path = e.store.disk.contents f.path := by
      refine eq_of_blocks (fun n hn => ?_) (h.agrees.tails t f hf)
      have hblock := h.agrees.blocks t f hf n hn
      rw [latestBlock, latestBlock, hclean, hclean'] at hblock
      exact hblock
    obtain ⟨f', hf', heq⟩ := h.agrees.sameFiles.exists_file hf
    obtain ⟨-, -, hpath, -⟩ := HeapFile.uncounted_eq_iff.1 heq
    obtain ⟨bytes, hbytes⟩ := Option.isSome_iff_exists.1 (h.left.present t f hf)
    obtain ⟨bytes', hbytes'⟩ := Option.isSome_iff_exists.1 (hpath ▸ h.right.present t f' hf')
    rw [Disk.contents, Disk.contents, hbytes, hbytes'] at hcontents
    rw [hbytes, hbytes']
    exact congrArg some hcontents
  · exact h.agrees.others file fun t f hf hpath => htable ⟨t, f, hf, hpath⟩

theorem Call.flushAll_after (he : e.Ready) :
    Calm e (Call.flushAll.after e) ∧ (Call.flushAll.after e).locks = e.locks ∧
      ∀ q, (Call.flushAll.after e).cache.changed? q = none := by
  have hflush : Ends Op.flushAll e (fun _ e' => Calm e e' ∧ e'.locks = e.locks ∧ ∀ q, e'.cache.changed? q = none)
      fun _ e' => Calm e e' ∧ e'.locks = e.locks ∧ ∀ q, e'.cache.changed? q = none := by
    refine (Op.ends_flushWhere_ready he Op.isDirty_due).mono_ok ?_
    rintro _ e' ⟨hcalm, hlocks, hclean⟩
    refine ⟨hcalm, hlocks, fun q => Cache.changed?_eq_none fun page hcopy => ?_⟩
    simpa [HeapPage.isDirty] using hclean q page hcopy
  exact hflush.always

/-- **The capacity of the cache cannot be observed.** Two engines with the same tables on the same disk cache
different numbers of pages, one at least. A caller sees the same in both, call by call, and the locks are the
same; no call fails for want of room; and once everything is written, each file has the same bytes. -/
theorem Caller.capacity_unobservable (disk : Disk) (settings : Settings) {tables : List NewTable}
    (hpaths : DistinctPaths disk tables) {c₁ c₂ : Nat} (h₁ : 0 < c₁) (h₂ : 0 < c₂) (caller : Caller) (calls : Nat)
    (hplain : caller.isPlain calls [] none (withTables disk (settings.withPoolPages c₁) tables) = true) :
    let run₁ := caller.run calls [] (withTables disk (settings.withPoolPages c₁) tables)
    let run₂ := caller.run calls [] (withTables disk (settings.withPoolPages c₂) tables)
    run₂.1 = run₁.1 ∧ (∀ entry ∈ run₁.1, entry.1.cause? ≠ some .bufferPoolFull) ∧
      ∀ file, (Call.flushAll.after run₂.2).store.disk.contents? file =
        (Call.flushAll.after run₁.2).store.disk.contents? file := by
  intro run₁ run₂
  obtain ⟨hsame, htwins, hroom⟩ := caller.run_twins calls [] (twins_withTables settings hpaths h₁ h₂)
    (fun p hp => by simp at hp) hplain
  obtain ⟨hl, hlocks, hclean⟩ := Call.flushAll_after htwins.left
  obtain ⟨hr, hlocks', hclean'⟩ := Call.flushAll_after htwins.right
  have hflushed := htwins.calm hl hr (hlocks'.trans (htwins.locks.trans hlocks.symm))
  exact ⟨hsame, hroom, hflushed.contents?_eq hclean hclean'⟩

namespace Sample

/-- Two tables of words. -/
def dictionaries : List NewTable := [⟨"words", "words", schema⟩, ⟨"more", "more", schema⟩]

theorem distinctPaths_dictionaries : DistinctPaths .blank dictionaries := by
  have hwords : Disk.blank.target "words" = .ok ["words"] := by decide +kernel
  have hmore : Disk.blank.target "more" = .ok ["more"] := by decide +kernel
  refine List.pairwise_pair.2 fun file hfile hfile' => ?_
  rw [hwords] at hfile
  rw [hmore] at hfile'
  exact absurd (Except.ok.inj (hfile.trans hfile'.symm)) (by decide)

/-- Stores two words on two pages, scans, deletes the word that the scan gives, goes on with the scan, and
commits. -/
def editor : Caller
  | [] => insertApple
  | [_] => insertPear
  | [_, _] => .next (Scan.ofFile 0 1).opened
  | [_, _, .row (.ok (r, _)) _] => .delete 1 r false
  | [_, _, .row _ s, _] => .next s
  | _ => .commit 1

end Sample

set_option maxRecDepth 50000 in
/-- With room for one page the second word takes the place of the first, and the scan that of the second. With
room for two nothing is evicted, and in the end both are cached. -/
theorem capacity_unobservable_of_editor :
    let small := withTables .blank (({} : Settings).withPoolPages 1) Sample.dictionaries
    let large := withTables .blank (({} : Settings).withPoolPages 2) Sample.dictionaries
    (Sample.editor.run 6 [] large).1 = (Sample.editor.run 6 [] small).1 ∧
      (Sample.editor.run 6 [] large).2.cache.size = 2 :=
  have hsame := Caller.capacity_unobservable .blank {} Sample.distinctPaths_dictionaries Nat.zero_lt_one
    Nat.zero_lt_two Sample.editor 6 (by decide +kernel)
  ⟨hsame.1, by decide +kernel⟩

end HeapStore
