import HeapStore.Proofs.Cache.Copies
import Mathlib.Data.List.Basic

/-!
# Pages to evict

The recency of a cache keeps each page's last stamp both ways (`Recency.Sound`). The page it gives up is then
the evictable one with the oldest stamp (`Recency.Sound.victim?_eq_some`), and there is none only if no tracked
page is evictable (`Recency.Sound.victim?_eq_none_iff`).

The recency of a cache tracks exactly the cached pages (`Cache.Tracked`); so long as no caller holds an object
(`Cache.Unheld`), every cached page may be evicted. A full cache of a capacity that is not zero then has a page
to give up, and one that is cached (`Cache.Tracked.exists_victim`).

Each operation on the cache keeps these properties, and the capacity.
-/

namespace HeapStore

/-- Asked in this order, the first page that may be evicted is the victim. -/
theorem Consultation.victim_run_eq_find? (evictable : PageId → Bool) (pages : List PageId) :
    (run evictable pages).victim = pages.find? evictable := by
  induction pages with
  | nil => rfl
  | cons p rest ih =>
    rw [run, List.find?_cons]
    cases evictable p with
    | true => rfl
    | false => exact ih

theorem values_eq_map_toList {α β : Type} [Ord α] [Std.TransOrd α] (m : Std.ExtTreeMap α β) :
    m.values = m.toList.map Prod.snd := by
  obtain ⟨inner⟩ := m
  refine inner.inductionOn fun tree => ?_
  show Std.DTreeMap.values tree = (Std.DTreeMap.Const.toList tree).map Prod.snd
  unfold Std.DTreeMap.values Std.DTreeMap.Const.toList
  rw [Std.DTreeMap.Internal.Impl.values_eq_map_snd, Std.DTreeMap.Internal.Impl.Const.toList_eq_toListModel_map,
    List.map_map]
  rfl

/-! ### Stamps -/

namespace Recency

structure Sound (r : Recency) : Prop where
  /-- Stamps are kept both ways. -/
  stamps : ∀ (p : PageId) (stamp : Nat), r.lastAccess[p]? = some stamp ↔ r.byAge[stamp]? = some p
  /-- Every stamp is one that the clock has shown. -/
  past : ∀ (p : PageId) (stamp : Nat), r.lastAccess[p]? = some stamp → stamp < r.clock

variable {r : Recency} {p q : PageId}

theorem sound_empty : ({} : Recency).Sound := ⟨by simp, by simp⟩

theorem lastAccess_access (r : Recency) (p q : PageId) :
    (r.access p).lastAccess[q]? = if q = p then some r.clock else r.lastAccess[q]? := by
  rw [access]
  simp only [Std.ExtTreeMap.getElem?_insert, Std.compare_eq_iff_eq, eq_comm (a := p)]

theorem lastAccess_remove (r : Recency) (p q : PageId) :
    (r.remove p).lastAccess[q]? = if q = p then none else r.lastAccess[q]? := by
  rw [remove]
  split
  · simp only [Std.ExtTreeMap.getElem?_erase, Std.compare_eq_iff_eq, eq_comm (a := p)]
  · next hnone =>
    split
    · next heq => rw [heq, hnone]
    · rfl

/-- After an access the page has the newest stamp and no other. -/
theorem Sound.byAge_access (hr : r.Sound) (p : PageId) (stamp : Nat) :
    (r.access p).byAge[stamp]? =
      if stamp = r.clock then some p else if r.byAge[stamp]? = some p then none else r.byAge[stamp]? := by
  rw [access]
  dsimp only
  split
  · next old hold =>
    simp only [Std.ExtTreeMap.getElem?_insert, Std.ExtTreeMap.getElem?_erase, Std.compare_eq_iff_eq,
      eq_comm (a := r.clock)]
    by_cases hnow : stamp = r.clock
    · rw [if_pos hnow, if_pos hnow]
    · rw [if_neg hnow, if_neg hnow]
      have hsame : old = stamp ↔ r.byAge[stamp]? = some p := by
        rw [← hr.stamps, hold, Option.some.injEq]
      simp only [hsame]
  · next hnone =>
    simp only [Std.ExtTreeMap.getElem?_insert, Std.compare_eq_iff_eq, eq_comm (a := r.clock)]
    have hnot : ¬ r.byAge[stamp]? = some p := by
      rw [← hr.stamps, hnone]
      simp
    rw [if_neg hnot]

theorem Sound.access (hr : r.Sound) (p : PageId) : (r.access p).Sound where
  stamps q stamp := by
    rw [lastAccess_access, hr.byAge_access]
    by_cases hq : q = p
    · subst hq
      by_cases hnow : stamp = r.clock
      · simp [hnow]
      · by_cases hold : r.byAge[stamp]? = some q
        · simp [hnow, hold, eq_comm]
        · simp [hnow, hold, eq_comm]
    · by_cases hnow : stamp = r.clock
      · have hnot : r.lastAccess[q]? ≠ some stamp := fun h => Nat.lt_irrefl _ (hnow ▸ hr.past q stamp h)
        simp [hq, hnow, hnow ▸ hnot, eq_comm (a := p)]
      · by_cases hold : r.byAge[stamp]? = some p
        · have hnot : r.lastAccess[q]? ≠ some stamp := fun h => by
            rw [hr.stamps, hold] at h
            exact hq (Option.some.inj h).symm
          simp [hq, hnow, hold, hnot]
        · simp [hq, hnow, hold, hr.stamps]
  past q stamp h := by
    rw [lastAccess_access] at h
    have hclock : (r.access p).clock = r.clock + 1 := rfl
    rw [hclock]
    split at h
    · obtain rfl := Option.some.inj h
      exact Nat.lt_succ_self _
    · exact Nat.lt_succ_of_lt (hr.past q stamp h)

theorem Sound.remove (hr : r.Sound) (p : PageId) : (r.remove p).Sound := by
  cases hp : r.lastAccess[p]? with
  | none =>
    have hsame : r.remove p = r := by rw [Recency.remove, hp]
    rw [hsame]
    exact hr
  | some old =>
    have hremoved : r.remove p = { r with lastAccess := r.lastAccess.erase p, byAge := r.byAge.erase old } := by
      rw [Recency.remove, hp]
    refine ⟨fun q stamp => ?_, fun q stamp h => ?_⟩
    · rw [lastAccess_remove, hremoved]
      simp only [Std.ExtTreeMap.getElem?_erase, Std.compare_eq_iff_eq]
      have hage : old = stamp ↔ r.byAge[stamp]? = some p := by
        rw [← hr.stamps, hp, Option.some.injEq]
      by_cases hq : q = p
      · by_cases hstamp : old = stamp
        · simp [hq, hstamp]
        · simp [hq, hstamp, mt hage.2 hstamp]
      · by_cases hstamp : old = stamp
        · have hnot : r.lastAccess[q]? ≠ some stamp := fun h => by
            rw [hr.stamps, hage.1 hstamp] at h
            exact hq (Option.some.inj h).symm
          simp [hq, hstamp, hnot]
        · simp [hq, hstamp, hr.stamps]
    · rw [lastAccess_remove] at h
      rw [hremoved]
      split at h
      · simp at h
      · exact hr.past q stamp h

/-! ### The oldest page -/

variable {evictable : PageId → Bool}

theorem mem_oldestFirst_iff (hr : r.Sound) : p ∈ r.oldestFirst ↔ (r.lastAccess[p]?).isSome = true := by
  rw [oldestFirst, values_eq_map_toList, List.mem_map, Option.isSome_iff_exists]
  constructor
  · rintro ⟨⟨stamp, q⟩, hmem, rfl⟩
    exact ⟨stamp, (hr.stamps q stamp).2 (Std.ExtTreeMap.mem_toList_iff_getElem?_eq_some.1 hmem)⟩
  · rintro ⟨stamp, hstamp⟩
    exact ⟨(stamp, p), Std.ExtTreeMap.mem_toList_iff_getElem?_eq_some.2 ((hr.stamps p stamp).1 hstamp), rfl⟩

/-- The list starts with the oldest stamps. -/
theorem Sound.pairwise_oldestFirst (hr : r.Sound) : r.oldestFirst.Pairwise fun p q =>
    ∀ i j, r.lastAccess[p]? = some i → r.lastAccess[q]? = some j → i < j := by
  have hordered : r.byAge.toList.Pairwise fun a b => compare a.1 b.1 = .lt := Std.ExtTreeMap.ordered_keys_toList
  rw [oldestFirst, values_eq_map_toList, List.pairwise_map]
  refine hordered.imp_of_mem ?_
  rintro ⟨i, p⟩ ⟨j, q⟩ hp hq hlt i' j' hi' hj'
  have hi := (hr.stamps p i).2 (Std.ExtTreeMap.mem_toList_iff_getElem?_eq_some.1 hp)
  have hj := (hr.stamps q j).2 (Std.ExtTreeMap.mem_toList_iff_getElem?_eq_some.1 hq)
  dsimp only at hi hj hi' hj'
  obtain rfl := Option.some.inj (hi.symm.trans hi')
  obtain rfl := Option.some.inj (hj.symm.trans hj')
  exact Nat.compare_eq_lt.1 hlt

theorem victim?_eq_find? (r : Recency) (evictable : PageId → Bool) :
    r.victim? evictable = r.oldestFirst.find? evictable := Consultation.victim_run_eq_find? evictable _

/-- The victim is tracked and evictable, and no other page that is has an older stamp. -/
theorem Sound.victim?_eq_some (hr : r.Sound) (h : r.victim? evictable = some p) :
    (r.lastAccess[p]?).isSome = true ∧ evictable p = true ∧
      ∀ q i j, q ≠ p → evictable q = true → r.lastAccess[p]? = some i → r.lastAccess[q]? = some j → i < j := by
  rw [victim?_eq_find?] at h
  obtain ⟨hp, older, newer, hsplit, holder⟩ := List.find?_eq_some_iff_append.1 h
  refine ⟨(mem_oldestFirst_iff hr).1 (List.mem_of_find?_eq_some h), hp, fun q i j hne hq hi hj => ?_⟩
  have hmem : q ∈ r.oldestFirst := (mem_oldestFirst_iff hr).2 (by rw [hj]; rfl)
  have hnewer : q ∈ newer := by
    rw [hsplit] at hmem
    rcases List.mem_append.1 hmem with hold | hrest
    · have hnot := holder q hold
      rw [hq] at hnot
      simp at hnot
    · exact (List.mem_cons.1 hrest).resolve_left hne
  have hpairs := hr.pairwise_oldestFirst
  rw [hsplit, List.pairwise_append, List.pairwise_cons] at hpairs
  exact hpairs.2.1.1 q hnewer i j hi hj

/-- There is no victim only if no tracked page is evictable. -/
theorem Sound.victim?_eq_none_iff (hr : r.Sound) :
    r.victim? evictable = none ↔ ∀ q, (r.lastAccess[q]?).isSome = true → evictable q = false := by
  rw [victim?_eq_find?, List.find?_eq_none]
  simp only [mem_oldestFirst_iff hr, Bool.not_eq_true]

/-- If every page may be evicted and there is one, one of those that are tracked is. -/
theorem Sound.exists_victim (hr : r.Sound) (hall : ∀ q, evictable q = true) {stamp : Nat}
    (hp : r.lastAccess[p]? = some stamp) :
    ∃ q later, r.victim? evictable = some q ∧ r.lastAccess[q]? = some later := by
  cases hvictim : r.victim? evictable with
  | none =>
    have hnot := hr.victim?_eq_none_iff.1 hvictim p (by rw [hp]; rfl)
    rw [hall p] at hnot
    simp at hnot
  | some q =>
    obtain ⟨later, hlater⟩ := Option.isSome_iff_exists.1 (hr.victim?_eq_some hvictim).1
    exact ⟨q, later, rfl, hlater⟩

end Recency

/-! ### Caches that nobody holds -/

namespace Cache

/-- The recency tracks exactly the cached pages. -/
structure Tracked (c : Cache) : Prop where
  recency : c.recency.Sound
  pages : ∀ p, (c.recency.lastAccess[p]?).isSome = (c.handle? p).isSome

/-- No caller holds an object. -/
def Unheld (c : Cache) : Prop := ∀ (o : Nat) (frame : Frame), c.frames[o]? = some frame → frame.holders = 0

variable {c : Cache} {p q : PageId} {h : Handle} {page : HeapPage}

theorem tracked_empty (capacity : Nat) : ({ capacity } : Cache).Tracked :=
  ⟨Recency.sound_empty, fun p => by simp [handle?]⟩

theorem unheld_empty (capacity : Nat) : ({ capacity } : Cache).Unheld := fun o frame h => by simp at h

theorem Tracked.touch (hc : c.Tracked) (hp : (c.handle? p).isSome = true) : (c.touch p).Tracked where
  recency := hc.recency.access p
  pages q := by
    rw [handle?_touch]
    show ((c.recency.access p).lastAccess[q]?).isSome = _
    rw [Recency.lastAccess_access]
    split
    · next heq => rw [heq, hp]; rfl
    · exact hc.pages q

theorem Tracked.setPage (hc : c.Tracked) (h : Handle) (page : HeapPage) : (c.setPage h page).Tracked :=
  ⟨hc.recency, hc.pages⟩

theorem Unheld.setPage (hc : c.Unheld) (h : Handle) (page : HeapPage) : (c.setPage h page).Unheld := by
  intro o frame hframe
  rw [getElem?_frames_setPage] at hframe
  split at hframe
  · obtain ⟨frame', hframe', rfl⟩ := Option.map_eq_some_iff.1 hframe
    exact hc o frame' hframe'
  · exact hc o frame hframe

theorem capacity_load (hh : c.handle? page.id = none) : (c.load page).2.capacity = c.capacity := by
  rw [load_eq hh]
  rfl

theorem Tracked.load (hc : c.Tracked) (hh : c.handle? page.id = none) : (c.load page).2.Tracked where
  recency := by
    rw [load_eq hh]
    exact hc.recency.access page.id
  pages q := by
    have hstamps : (c.load page).2.recency = c.recency.access page.id := by
      rw [load_eq hh]
      rfl
    rw [handle?_load hh, hstamps, Recency.lastAccess_access]
    split
    · rfl
    · exact hc.pages q

theorem Unheld.load (hc : c.Unheld) (hh : c.handle? page.id = none) : (c.load page).2.Unheld := by
  intro o frame hframe
  rw [load_eq hh] at hframe
  change (c.frames.insert c.nextObject ⟨page, 0⟩)[o]? = some frame at hframe
  rw [Std.ExtTreeMap.getElem?_insert] at hframe
  split at hframe
  · obtain rfl := Option.some.inj hframe
    rfl
  · exact hc o frame hframe

/-- Forgetting an object is no matter of residence, of recency or of room. -/
theorem sweep_eq (c : Cache) (p : PageId) (o : Nat) :
    (c.sweep p o).resident = c.resident ∧ (c.sweep p o).recency = c.recency ∧
      (c.sweep p o).capacity = c.capacity := by
  unfold sweep
  split
  · exact ⟨rfl, rfl, rfl⟩
  · exact ⟨rfl, rfl, rfl⟩

theorem remove_eq (c : Cache) (p : PageId) :
    (c.remove p).resident = c.resident.erase p ∧ (c.remove p).recency = c.recency.remove p ∧
      (c.remove p).capacity = c.capacity := by
  unfold remove
  dsimp only
  split
  · exact ⟨rfl, rfl, rfl⟩
  · exact sweep_eq _ p _

theorem handle?_remove_eq (c : Cache) (p q : PageId) :
    (c.remove p).handle? q = if q = p then none else c.handle? q := by
  obtain ⟨hresident, -⟩ := c.remove_eq p
  rw [handle?, hresident]
  simp only [Std.ExtTreeMap.getElem?_erase, Std.compare_eq_iff_eq, eq_comm (a := p)]
  split <;> rfl

theorem Tracked.remove (hc : c.Tracked) (p : PageId) : (c.remove p).Tracked := by
  obtain ⟨-, hrecency, -⟩ := c.remove_eq p
  refine ⟨hrecency ▸ hc.recency.remove p, fun q => ?_⟩
  rw [hrecency, Recency.lastAccess_remove, handle?_remove_eq]
  split
  · rfl
  · exact hc.pages q

theorem Unheld.sweep (hc : c.Unheld) (p : PageId) (object : Nat) : (c.sweep p object).Unheld := by
  unfold Cache.sweep
  split
  · intro o frame hframe
    rw [Std.ExtTreeMap.getElem?_erase] at hframe
    split at hframe
    · simp at hframe
    · exact hc o frame hframe
  · exact hc

theorem Unheld.remove (hc : c.Unheld) (p : PageId) : (c.remove p).Unheld := by
  unfold Cache.remove
  dsimp only
  split
  · exact hc
  · exact Unheld.sweep (c := { c with resident := c.resident.erase p, recency := c.recency.remove p }) hc p _

theorem Unheld.isEvictable (hc : c.Unheld) (p : PageId) : c.isEvictable p = true := by
  unfold Cache.isEvictable
  split
  · rfl
  · next o _ =>
    cases hframe : c.frames[o]? with
    | none => rfl
    | some frame => simp [hc o frame hframe]

/-- A full cache has a page to give up. -/
theorem Tracked.exists_victim (hc : c.Tracked) (hu : c.Unheld) (hroom : 0 < c.capacity)
    (hfull : c.isFull = true) : ∃ p h, c.victim? = some p ∧ c.handle? p = some h := by
  have hsize : 0 < c.resident.size := by
    have hle : c.capacity ≤ c.resident.size := of_decide_eq_true hfull
    omega
  obtain ⟨p, hp⟩ : ∃ p, p ∈ c.resident := by
    by_contra hnone
    have hempty : c.resident = ∅ :=
      Std.ExtTreeMap.eq_empty_iff_forall_not_mem.2 fun p hp => hnone ⟨p, hp⟩
    rw [hempty, Std.ExtTreeMap.size_empty] at hsize
    exact Nat.lt_irrefl 0 hsize
  have hcached : (c.handle? p).isSome = true := by
    rw [handle?, Option.isSome_map, ← Std.ExtTreeMap.contains_eq_isSome_getElem?,
      Std.ExtTreeMap.contains_iff_mem.2 hp]
  rw [← hc.pages] at hcached
  obtain ⟨stamp, hstamp⟩ := Option.isSome_iff_exists.1 hcached
  obtain ⟨q, later, hvictim, hlater⟩ := hc.recency.exists_victim hu.isEvictable hstamp
  obtain ⟨h, hh⟩ := Option.isSome_iff_exists.1 ((hc.pages q).symm.trans (by rw [hlater]; rfl))
  exact ⟨q, h, hvictim, hh⟩

end Cache

end HeapStore
