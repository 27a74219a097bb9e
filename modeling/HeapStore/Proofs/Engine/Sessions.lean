import HeapStore.Proofs.Engine.Accesses
import Mathlib.Data.List.Count

/-!
# Sessions with the pool

A session is an engine together with the list of all page objects that callers hold, one entry for each time that an
object is held. The list is kept by looking at the answers only: an object that a call gives and the caller keeps is
added, one that is dropped is taken away. Callers may also hold an object once more, change the page of an object that
they hold, and have pages discarded; and anything may happen next to the pool, such as registrations of tables
(`Session.Event`).

The cache goes by its own count of holders; it agrees with the list at any time (`Cache.HeldBy`,
`Session.heldBy_run`). Every event is a series of steps of the pool and what comes at its end, when the caller takes an
object, drops one or has a page discarded (`Session.exists_course`).
-/

namespace HeapStore

/-! ### Lists of held objects -/

namespace Cache

/-- The objects in the list are those that callers hold, each as often as it is held. -/
structure HeldBy (c : Cache) (kept : List Handle) : Prop extends Bounded c where
  counts : ∀ o, c.holders o = kept.countP (·.object = o)
  ids : ∀ h ∈ kept, c.pageOf? h.object = some h.page

variable {c c' : Cache} {kept : List Handle} {h : Handle} {p : PageId}

theorem heldBy_empty (capacity : Nat) : ({ capacity } : Cache).HeldBy [] :=
  ⟨bounded_empty capacity, fun o => by simp [Cache.holders], by simp⟩

theorem HeldBy.holders_pos (hc : c.HeldBy kept) (hmem : h ∈ kept) : 0 < c.holders h.object := by
  rw [hc.counts, List.countP_pos_iff]
  exact ⟨h, hmem, decide_eq_true rfl⟩

/-- An object that is held is in the list as an object of its page. -/
theorem HeldBy.mem_iff (hc : c.HeldBy kept) (hh : c.pageOf? h.object = some h.page) :
    h ∈ kept ↔ 0 < c.holders h.object := by
  refine ⟨hc.holders_pos, fun hpos => ?_⟩
  rw [hc.counts, List.countP_pos_iff] at hpos
  obtain ⟨h', hmem, hobject⟩ := hpos
  have hobject' : h'.object = h.object := of_decide_eq_true hobject
  have hpage : h'.page = h.page := Option.some.inj ((hc.ids h' hmem).symm.trans (hobject' ▸ hh))
  exact Handle.eq_of_page_of_object hpage hobject' ▸ hmem

theorem HeldBy.isHeld_iff (hc : c.HeldBy kept) : c.isHeld h = true ↔ h ∈ kept := by
  rw [Cache.isHeld_iff]
  exact ⟨fun ⟨hpage, hpos⟩ => (hc.mem_iff hpage).2 hpos, fun hmem => ⟨hc.ids h hmem, hc.holders_pos hmem⟩⟩

theorem Sound.pageOf?_of_handle? (hc : c.Sound) (hh : c.handle? p = some h) : c.pageOf? h.object = some h.page := by
  obtain ⟨page, hpage, -, hid⟩ := hc.exists_copy hh
  exact pageOf?_of_page? hpage (hid.trans (handle?_eq_some_iff.1 hh).2.symm)

theorem HeldBy.of_minds (hc : c.HeldBy kept) (hb : c'.Bounded) (hminds : c.Minds c') : c'.HeldBy kept :=
  ⟨hb, fun o => (hminds.holders o).trans (hc.counts o),
    fun h hmem => (hminds.pageOf? h.object (hc.holders_pos hmem)).trans (hc.ids h hmem)⟩

theorem HeldBy.hold (hc : c.HeldBy kept) (hh : c.pageOf? h.object = some h.page) : (c.hold h).HeldBy (h :: kept) where
  toBounded := hc.toBounded.hold h
  counts o := by
    rw [holders_hold hh, List.countP_cons, hc.counts]
    simp only [decide_eq_true_eq]
    split <;> rfl
  ids h' hmem := by
    rw [pageOf?_hold]
    rcases List.mem_cons.1 hmem with rfl | hmem
    · exact hh
    · exact hc.ids h' hmem

theorem HeldBy.letGo (hc : c.HeldBy kept) (hmem : h ∈ kept) : (c.letGo h).HeldBy (kept.erase h) := by
  have hholders : ∀ o, (c.letGo h).holders o = (kept.erase h).countP (·.object = o) := by
    intro o
    rw [holders_letGo, List.countP_erase, hc.counts]
    simp only [decide_eq_true_eq, hmem, true_and]
    split <;> rfl
  refine ⟨hc.toBounded.letGo (hc.isHeld_iff.2 hmem), hholders, fun h' hmem' => ?_⟩
  have hpos : 0 < (c.letGo h).holders h'.object := by
    rw [hholders, List.countP_pos_iff]
    exact ⟨h', hmem', decide_eq_true rfl⟩
  rw [pageOf?_letGo hpos]
  exact hc.ids h' (List.mem_of_mem_erase hmem')

end Cache

/-! ### Calls -/

open Engine

/-- The page object that an answer gives. -/
def Reply.given? : Reply → Option Handle
  | .handle (.ok h) | .insertion ⟨_, .ok h⟩ => some h
  | _ => none

namespace Call

/-- Does the caller go on holding the page object that the call gives? -/
def keeps : Call → Bool
  | getPage _ _ _ keep | insert _ _ _ keep | delete _ _ keep => keep
  | _ => false

/-- The object that the caller holds once more after the call. -/
def taken? (c : Call) (reply : Reply) : Option Handle := if c.keeps then reply.given? else none

/-- The object that the caller holds once less after the call. -/
def dropped? : Call → Option Handle
  | drop h => some h
  | _ => none

/-- What callers hold after a call, going by its answer. -/
def kept (c : Call) (reply : Reply) (kept : List Handle) : List Handle :=
  match c.taken? reply, c.dropped? with
  | some h, _ => h :: kept
  | none, some h => kept.erase h
  | none, none => kept

/-- What happens to the cache when the caller takes what a call gives, or drops an object. -/
def close (c : Call) (reply : Reply) (cache : Cache) : Cache :=
  match c.taken? reply, c.dropped? with
  | some h, _ => cache.hold h
  | none, some h => if cache.isHeld h then cache.letGo h else cache
  | none, none => cache

/-- The pages that a call accesses, going by its answer, the last one first. An insert looks at some pages of a table
in order; the page that takes the tuple is accessed twice more, as it is locked exclusively and as its copy is
admitted. -/
def Accesses : Call → Reply → List PageId → Prop
  | getPage _ p _ _, .handle (.ok _), log => log = [p]
  | insert .., .insertion ⟨_, .ok h⟩, log => ∃ t k, log = h.page :: h.page :: visited t 0 k
  | insert .., .insertion ⟨_, .error _⟩, log => ∃ q again t k, log = List.replicate again q ++ visited t 0 k
  | delete _ r _, .handle (.ok _), log => ∃ rid, r = some rid ∧ log = [rid.page]
  | delete _ r _, .handle (.error _), log => log = [] ∨ ∃ rid, r = some rid ∧ log = [rid.page]
  | hasNext s, _, log | next s, _, log => ∃ t k, log = visited t s.position.page k
  | _, _, log => log = []

/-- The objects whose pages a call changes, going by its answer: what an insert or a delete gives. -/
def changed (c : Call) (reply : Reply) : List Handle :=
  match c with
  | insert .. | delete .. => reply.given?.toList
  | _ => []

/-- The pages that a call is to write to their files. -/
def Flushes : Call → HeapPage → Prop
  | flushPage p, page => page.id = p
  | flushTxn txn, page | commit txn, page => page.dirtiedBy = some txn
  | flushAll, page => page.isDirty = true
  | _, _ => False

/-- The work that is part of a call, going by its answer. Only an insert may append a page. -/
def Does (c : Call) (reply : Reply) : Work → Prop
  | .change h => h ∈ c.changed reply
  | .write page => c.Flushes page
  | .append t => c.insertsInto? = some t

/-- A call comes to these steps of the pool; what it gives is cached then, and is taken by the caller at last. -/
structure Course (c : Call) (reply : Reply) (log : List PageId) (wanted : Option PageId) (e e₁ e' : Engine) :
    Prop where
  steps : PoolSteps (c.Does reply) e log wanted e₁
  accesses : c.Accesses reply log
  given : ∀ h, reply.given? = some h → e₁.cache.handle? h.page = some h
  closing : e' = { e₁ with cache := c.close reply e₁.cache }

variable {c : Call} {reply : Reply} {e e₁ : Engine} {log : List PageId} {wanted : Option PageId}

theorem close_of_none (htaken : c.taken? reply = none) (hdropped : c.dropped? = none) (cache : Cache) :
    c.close reply cache = cache := by
  rw [close, htaken, hdropped]

theorem given_of_taken {h : Handle} (htaken : c.taken? reply = some h) : reply.given? = some h := by
  unfold taken? at htaken
  split at htaken
  · exact htaken
  · simp at htaken

theorem Course.of_none (hsteps : PoolSteps (c.Does reply) e log wanted e₁) (haccesses : c.Accesses reply log)
    (hgiven : reply.given? = none) (hdropped : c.dropped? = none) : c.Course reply log wanted e e₁ e₁ := by
  refine ⟨hsteps, haccesses, by simp [hgiven], ?_⟩
  rw [close_of_none (by rw [taken?, hgiven, ite_self]) hdropped]

/-- The object that a call gives is held at its end, if it is to be kept. -/
theorem settles_hold_course {keep : Bool} {outcome : Except StorageError Handle}
    (hsteps : PoolSteps (c.Does reply) e log wanted e₁) (haccesses : c.Accesses reply log)
    (hcached : ∀ h, outcome = .ok h → e₁.cache.handle? h.page = some h) (hgiven : reply.given? = outcome.toOption)
    (hkeeps : c.keeps = keep) (hdropped : c.dropped? = none) :
    Settles (hold keep outcome) e₁ fun _ e' => c.Course reply log wanted e e₁ e' := by
  have htaken : c.taken? reply = if keep then outcome.toOption else none := by rw [taken?, hkeeps, hgiven]
  cases outcome with
  | error cause => exact .of_none hsteps haccesses hgiven hdropped
  | ok h =>
    have hcached' : ∀ h', reply.given? = some h' → e₁.cache.handle? h'.page = some h' := fun h' heq =>
      hcached h' (congrArg Except.ok (Option.some.inj (hgiven.symm.trans heq)))
    cases keep with
    | false => exact ⟨hsteps, haccesses, hcached', by rw [close_of_none htaken hdropped]; rfl⟩
    | true => exact ⟨hsteps, haccesses, hcached', by rw [close, htaken]; rfl⟩

theorem cached_of_handle? {p : PageId} {h : Handle} (hh : e₁.cache.handle? p = some h) (h' : Handle)
    (heq : (.ok h : Except StorageError Handle) = .ok h') : e₁.cache.handle? h'.page = some h' := by
  obtain rfl := Except.ok.inj heq
  rw [(Cache.handle?_eq_some_iff.1 hh).2, hh]

theorem settles_course_getPage (hb : e.cache.Bounded) (txn : TxnId) (p : PageId) (access : Access) (keep : Bool) :
    Settles (getPage txn p access keep).run e fun reply e' =>
      ∃ log wanted e₁, (getPage txn p access keep).Course reply log wanted e e₁ e' := by
  unfold run
  rw [settles_bind, HeapStore.settles_run]
  refine (Op.ends_getPage_steps hb txn p access).mono ?_ ?_
  · rintro h e₁ ⟨hsteps, hh⟩
    have hcourse : Settles (hold keep (.ok h)) e₁ fun _ e' =>
        (getPage txn p access keep).Course (.handle (.ok h)) [p] none e e₁ e' :=
      settles_hold_course (hsteps.widen _) rfl (cached_of_handle? hh) rfl rfl rfl
    exact ⟨_, _, _, hcourse⟩
  · rintro cause e₁ ⟨wanted, hsteps⟩
    have hcourse : Settles (hold keep (.error cause)) e₁ fun _ e' =>
        (getPage txn p access keep).Course (.handle (.error cause)) [] wanted e e₁ e' :=
      settles_hold_course (hsteps.widen _) rfl (by simp) rfl rfl rfl
    exact ⟨_, _, _, hcourse⟩

/-- The work of an insert that succeeds. -/
theorem does_insert {txn : TxnId} {table : TableId} {t : Tuple} {keep : Bool} {h : Handle}
    (hgiven : reply.given? = some h) (w : Work) (hw : w = .change h ∨ w = .append table) :
    (insert txn table t keep).Does reply w := by
  rcases hw with rfl | rfl
  · show h ∈ reply.given?.toList
    rw [hgiven]
    exact List.mem_singleton_self h
  · rfl

theorem settles_course_insert (hb : e.cache.Bounded) (txn : TxnId) (table : TableId) (t : Tuple) (keep : Bool) :
    Settles (insert txn table t keep).run e fun reply e' =>
      ∃ log wanted e₁, (insert txn table t keep).Course reply log wanted e e₁ e' := by
  unfold run
  rw [settles_bind]
  apply (Op.settles_insert_steps hb txn table t).mono
  rintro ⟨stored, outcome⟩ e₁ hsteps
  cases outcome with
  | ok h =>
    obtain ⟨u, k, hsteps, hh⟩ := hsteps
    have hcourse : Settles (hold keep (.ok h)) e₁ fun _ e' =>
        (insert txn table t keep).Course (.insertion ⟨stored, .ok h⟩) _ none e e₁ e' :=
      settles_hold_course (hsteps.mono (does_insert rfl)) ⟨u, k, rfl⟩ (cached_of_handle? hh) rfl rfl rfl
    exact ⟨_, _, _, hcourse⟩
  | error cause =>
    obtain ⟨q, again, u, k, wanted, hsteps⟩ := hsteps
    have hcourse : Settles (hold keep (.error cause)) e₁ fun _ e' =>
        (insert txn table t keep).Course (.insertion ⟨stored, .error cause⟩) _ wanted e e₁ e' :=
      settles_hold_course (hsteps.mono fun _ hw => hw ▸ rfl) ⟨q, again, u, k, rfl⟩ (by simp) rfl rfl rfl
    exact ⟨_, _, _, hcourse⟩

theorem settles_course_delete (hb : e.cache.Bounded) (txn : TxnId) (r : Option RecordId) (keep : Bool) :
    Settles (delete txn r keep).run e fun reply e' =>
      ∃ log wanted e₁, (delete txn r keep).Course reply log wanted e e₁ e' := by
  unfold run
  rw [settles_bind, HeapStore.settles_run]
  refine (Op.ends_delete_steps hb txn r).mono ?_ ?_
  · rintro h e₁ ⟨rid, hr, hsteps, hh⟩
    have hcourse : Settles (hold keep (.ok h)) e₁ fun _ e' =>
        (delete txn r keep).Course (.handle (.ok h)) [rid.page] none e e₁ e' :=
      settles_hold_course (hsteps.mono fun _ hw => hw ▸ List.mem_singleton_self h) ⟨rid, hr, rfl⟩ (cached_of_handle? hh)
        rfl rfl rfl
    exact ⟨_, _, _, hcourse⟩
  · rintro cause e₁ ⟨log, wanted, hsteps, hlog⟩
    have hcourse : Settles (hold keep (.error cause)) e₁ fun _ e' =>
        (delete txn r keep).Course (.handle (.error cause)) log wanted e e₁ e' :=
      settles_hold_course (hsteps.widen _) hlog (by simp) rfl rfl rfl
    exact ⟨_, _, _, hcourse⟩

theorem does_of_flushing {due : HeapPage → Prop} (hdue : ∀ page, due page → c.Flushes page) :
    ∀ w, Flushing due w → c.Does reply w
  | .write page, hpage => hdue page hpage

/-- Calls that access no page and give none: flushes, releases and the ends of transactions. -/
theorem settles_course_none {α : Type} {op : Op α} {answer : Except StorageError α → Reply} {due : HeapPage → Prop}
    (hrun : c.run = (do return answer (← op.run)))
    (hends : Ends op e (fun _ e₁ => PoolSteps (Flushing due) e [] none e₁) fun _ e₁ =>
      PoolSteps (Flushing due) e [] none e₁)
    (hdue : ∀ page, due page → c.Flushes page) (haccesses : ∀ x, c.Accesses (answer x) [])
    (hgiven : ∀ x, (answer x).given? = none) (hdropped : c.dropped? = none) :
    Settles c.run e fun reply e' => ∃ log wanted e₁, c.Course reply log wanted e e₁ e' := by
  have hcourse : ∀ x e₁, PoolSteps (Flushing due) e [] none e₁ →
      ∃ log wanted e₂, c.Course (answer x) log wanted e e₂ e₁ := fun x e₁ hsteps =>
    ⟨[], none, e₁, .of_none (hsteps.mono (does_of_flushing hdue)) (haccesses x) (hgiven x) hdropped⟩
  rw [hrun, settles_bind, HeapStore.settles_run]
  exact hends.mono (fun a e₁ => hcourse (.ok a) e₁) fun cause e₁ => hcourse (.error cause) e₁

/-- Every call has its course. -/
theorem settles_course (hb : e.cache.Bounded) (c : Call) :
    Settles c.run e fun reply e' => ∃ log wanted e₁, c.Course reply log wanted e e₁ e' := by
  cases c with
  | getPage txn p access keep => exact settles_course_getPage hb txn p access keep
  | insert txn table t keep => exact settles_course_insert hb txn table t keep
  | delete txn r keep => exact settles_course_delete hb txn r keep
  | releasePage txn p => exact ⟨[], none, _, .of_none (PoolSteps.refl.other (.locks e _)) rfl rfl rfl⟩
  | flushPage p =>
    have hends := (Op.ends_flushPage_saves hb p).mono (fun _ _ h => h.1) fun _ _ h => h
    exact settles_course_none rfl hends (fun _ hpage => hpage) (fun _ => rfl) (fun _ => rfl) rfl
  | flushTxn txn =>
    have hends := (Op.ends_flushTxn_saves hb txn).mono (fun _ _ h => h.1) fun _ _ h => h
    exact settles_course_none rfl hends (fun _ hpage => hpage) (fun _ => rfl) (fun _ => rfl) rfl
  | flushAll =>
    have hends := (Op.ends_flushAll_saves hb).mono (fun _ _ h => h.1) fun _ _ h => h
    exact settles_course_none rfl hends (fun _ hpage => hpage) (fun _ => rfl) (fun _ => rfl) rfl
  | commit txn =>
    have hends := (Op.ends_commit_saves hb txn).mono (fun _ _ h => h.1) fun _ _ h => h
    exact settles_course_none rfl hends (fun _ hpage => hpage) (fun _ => rfl) (fun _ => rfl) rfl
  | abort txn => exact ⟨[], none, _, .of_none (PoolSteps.refl.other (.locks e _)) rfl rfl rfl⟩
  | hasNext s =>
    unfold run
    rw [settles_bind]
    apply (Scan.settles_hasNext_steps hb s).mono
    exact fun _ e₁ ⟨t, k, wanted, hsteps⟩ => ⟨_, wanted, e₁, .of_none (hsteps.widen _) ⟨t, k, rfl⟩ rfl rfl⟩
  | next s =>
    unfold run
    rw [settles_bind]
    apply (Scan.settles_next_steps hb s).mono
    exact fun _ e₁ ⟨t, k, wanted, hsteps⟩ => ⟨_, wanted, e₁, .of_none (hsteps.widen _) ⟨t, k, rfl⟩ rfl rfl⟩
  | drop h =>
    unfold run
    rw [settles_bind, settles_get]
    have hclose : close (drop h) (.ended (.ok ())) e.cache =
        if e.cache.isHeld h then e.cache.letGo h else e.cache := rfl
    cases hheld : e.cache.isHeld h with
    | false =>
      rw [hheld] at hclose
      exact ⟨[], none, e, .refl, rfl, by simp [Reply.given?], congrArg (fun c => { e with cache := c }) hclose.symm⟩
    | true =>
      rw [hheld] at hclose
      exact ⟨[], none, e, .refl, rfl, by simp [Reply.given?], congrArg (fun c => { e with cache := c }) hclose.symm⟩

/-- The close of a call moves no page in or out. -/
theorem close_eq (c : Call) (reply : Reply) (cache : Cache) : (c.close reply cache).resident = cache.resident ∧
    (c.close reply cache).recency = cache.recency ∧ (c.close reply cache).capacity = cache.capacity := by
  unfold close
  split
  · exact ⟨rfl, rfl, rfl⟩
  · split
    · exact cache.letGo_eq _
    · exact ⟨rfl, rfl, rfl⟩
  · exact ⟨rfl, rfl, rfl⟩

theorem handle?_close (c : Call) (reply : Reply) (cache : Cache) (q : PageId) :
    (c.close reply cache).handle? q = cache.handle? q := by
  rw [Cache.handle?, (close_eq c reply cache).1, Cache.handle?]

theorem page?_close {cache : Cache} {h : Handle} (hc : cache.Sound) (hh : cache.handle? h.page = some h) (c : Call)
    (reply : Reply) : (c.close reply cache).page? h = cache.page? h := by
  have hafter := (handle?_close c reply cache h.page).trans hh
  rw [← Cache.copy?_eq_of_handle? hh, ← Cache.copy?_eq_of_handle? hafter]
  unfold close
  split
  · exact Cache.copy?_hold _ h.page
  · split
    · next hheld => exact hc.copy?_letGo hheld h.page
    · rfl
  · rfl

theorem heldBy_close {cache : Cache} {kept : List Handle} (hc : cache.HeldBy kept)
    (hgiven : ∀ h, reply.given? = some h → cache.handle? h.page = some h) :
    (c.close reply cache).HeldBy (c.kept reply kept) := by
  unfold close Call.kept
  cases htaken : c.taken? reply with
  | some h =>
    exact hc.hold (hc.toSound.pageOf?_of_handle? (hgiven h (given_of_taken htaken)))
  | none =>
    cases c.dropped? with
    | none => exact hc
    | some h =>
      dsimp only
      split
      · next hheld => exact hc.letGo (hc.isHeld_iff.1 hheld)
      · next hnot => rwa [List.erase_of_not_mem fun hmem => hnot (hc.isHeld_iff.2 hmem)]

end Call

/-! ### Sessions -/

/-- An engine, and the objects that callers hold. -/
structure Session where
  engine : Engine
  kept : List Handle

namespace Session

/-- A session starts with an empty pool, and whatever locks, tables and files there are. -/
def start (e : Engine) (capacity : Nat) : Session := ⟨{ e with cache := { capacity } }, []⟩

inductive Event where
  | call (c : Call)
  /-- A page is dropped from the cache without being written. -/
  | discard (p : PageId)
  /-- Who holds an object holds it once more. -/
  | again (h : Handle)
  /-- Who holds an object changes its page. -/
  | change (h : Handle) (page : HeapPage)
  /-- Anything that does not concern the pool. -/
  | elsewhere (e : Engine)

def after (s : Session) : Event → Session
  | .call c => ⟨c.after s.engine, c.kept (c.reply s.engine) s.kept⟩
  | .discard p => ⟨((Op.discard p).run.run s.engine).2, s.kept⟩
  | .again h => if h ∈ s.kept then ⟨((Op.hold h).run.run s.engine).2, h :: s.kept⟩ else s
  | .change h page =>
    if h ∈ s.kept ∧ page.id = h.page then ⟨((Op.setPage h page).run.run s.engine).2, s.kept⟩ else s
  | .elsewhere e => ⟨{ e with cache := s.engine.cache }, s.kept⟩

def run (s : Session) (events : List Event) : Session := events.foldl after s

/-- The pages that an event accesses, the last one first. -/
def Accesses (s : Session) : Event → List PageId → Prop
  | .call c, log => c.Accesses (c.reply s.engine) log
  | _, log => log = []

/-- The objects whose pages an event changes. -/
def changed (s : Session) : Event → List Handle
  | .call c => c.changed (c.reply s.engine)
  | .change h _ => [h]
  | _ => []

/-- The work that is part of an event. -/
def Does (s : Session) : Event → Work → Prop
  | .call c, w => c.Does (c.reply s.engine) w
  | .change h _, w => w = .change h
  | _, _ => False

/-- What happens at the end of an event. -/
def close (s : Session) (ev : Event) (e : Engine) : Engine :=
  match ev with
  | .call c => { e with cache := c.close (c.reply s.engine) e.cache }
  | .discard p => { e with cache := e.cache.remove p }
  | .again h => if h ∈ s.kept then { e with cache := e.cache.hold h } else e
  | .change _ _ => e
  | .elsewhere e' => { e' with cache := e.cache }

/-- An event comes to these steps of the pool, with these accesses, and to its close. -/
structure Course (s : Session) (ev : Event) (log : List PageId) (wanted : Option PageId) (e : Engine) : Prop where
  steps : PoolSteps (s.Does ev) s.engine log wanted e
  accesses : s.Accesses ev log
  closing : (s.after ev).engine = s.close ev e

variable {s : Session} {ev : Event} {log : List PageId} {wanted : Option PageId} {e : Engine}

theorem not_does_change {h : Handle} (hnot : h ∉ s.changed ev) : ¬ s.Does ev (.change h) := by
  cases ev with
  | call c => exact hnot
  | change h' page =>
    intro heq
    exact hnot (List.mem_singleton.2 (Work.change.inj heq))
  | _ => exact not_false

theorem after_again {h : Handle} (hmem : h ∈ s.kept) :
    s.after (.again h) = ⟨{ s.engine with cache := s.engine.cache.hold h }, h :: s.kept⟩ := if_pos hmem

theorem after_change {h : Handle} {page : HeapPage} (hmem : h ∈ s.kept) (hid : page.id = h.page) :
    s.after (.change h page) = ⟨{ s.engine with cache := s.engine.cache.setPage h page }, s.kept⟩ :=
  if_pos ⟨hmem, hid⟩

theorem after_again_of_not {h : Handle} (hnot : h ∉ s.kept) : s.after (.again h) = s := if_neg hnot

theorem after_change_of_not {h : Handle} {page : HeapPage} (hnot : ¬ (h ∈ s.kept ∧ page.id = h.page)) :
    s.after (.change h page) = s := if_neg hnot

theorem exists_page (hs : s.engine.cache.HeldBy s.kept) {h : Handle} (hmem : h ∈ s.kept) :
    ∃ page, s.engine.cache.page? h = some page ∧ page.id = h.page := by
  have hid := hs.ids h hmem
  rw [Cache.pageOf?_eq] at hid
  exact Option.map_eq_some_iff.1 hid

/-- Every event has its course, and the list stays that of the objects held. -/
theorem exists_course (hs : s.engine.cache.HeldBy s.kept) (ev : Event) :
    ∃ log wanted e, s.Course ev log wanted e ∧ (s.after ev).engine.cache.HeldBy (s.after ev).kept := by
  cases ev with
  | call c =>
    obtain ⟨log, wanted, e, hsteps, haccesses, hgiven, hclosing⟩ := Call.settles_course hs.toBounded c
    obtain ⟨hbounded, hminds⟩ := hsteps.minds hs.toBounded
    refine ⟨log, wanted, e, ⟨hsteps, haccesses, hclosing⟩, ?_⟩
    have hclose := Call.heldBy_close (c := c) (hs.of_minds hbounded hminds) hgiven
    rwa [show (s.after (.call c)).engine.cache = _ from congrArg Engine.cache hclosing]
  | discard p =>
    exact ⟨[], none, s.engine, ⟨.refl, rfl, rfl⟩,
      hs.of_minds (hs.toBounded.remove p) (Cache.minds_remove _ p)⟩
  | again h =>
    by_cases hmem : h ∈ s.kept
    · refine ⟨[], none, s.engine, ⟨.refl, rfl, ?_⟩, ?_⟩
      · rw [after_again hmem, close, if_pos hmem]
      · rw [after_again hmem]
        exact hs.hold (hs.ids h hmem)
    · have hafter := after_again_of_not hmem
      exact ⟨[], none, s.engine, ⟨.refl, rfl, by rw [hafter, close, if_neg hmem]⟩, by rwa [hafter]⟩
  | change h page =>
    by_cases hheld : h ∈ s.kept ∧ page.id = h.page
    · obtain ⟨hmem, hid⟩ := hheld
      obtain ⟨old, hold, hid'⟩ := exists_page hs hmem
      have hsteps : PoolSteps (s.Does (.change h page)) s.engine [] none _ :=
        PoolSteps.refl.work (.changed hold hid' hid) rfl
      obtain ⟨hbounded, hminds⟩ := hsteps.minds hs.toBounded
      refine ⟨[], none, _, ⟨hsteps, rfl, by rw [after_change hmem hid]; rfl⟩, ?_⟩
      rw [after_change hmem hid]
      exact hs.of_minds hbounded hminds
    · have hafter := after_change_of_not hheld
      exact ⟨[], none, s.engine, ⟨.refl, rfl, by rw [hafter]; rfl⟩, by rwa [hafter]⟩
  | elsewhere e => exact ⟨[], none, s.engine, ⟨.refl, rfl, rfl⟩, hs⟩

theorem heldBy_run (hs : s.engine.cache.HeldBy s.kept) (events : List Event) :
    (s.run events).engine.cache.HeldBy (s.run events).kept := by
  induction events generalizing s with
  | nil => exact hs
  | cons ev rest ih =>
    obtain ⟨_, _, _, -, hafter⟩ := exists_course hs ev
    exact ih hafter

end Session

end HeapStore
