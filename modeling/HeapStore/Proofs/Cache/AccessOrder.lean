import HeapStore.Proofs.Cache.Tracking
import Mathlib.Data.List.Induction
import Mathlib.Data.List.Nodup
import Mathlib.Data.List.Perm.Basic

/-!
# The order of last access

The stamps of a recency are bookkeeping for one list: its pages, each once, in the order of their last accesses.
An access moves its page to the end of the list or appends it (`Recency.Sound.oldestFirst_access`), a removal
deletes it (`Recency.Sound.oldestFirst_remove`), and a search for a page to evict goes down the list
(`Consultation.run_cases`). So a recency that was used in any way at all behaves as the list of its pages does
(`Recency.oldestFirst_uses`).
-/

namespace HeapStore

/-- A search either stops at the first page that may be evicted, or it has asked about all of them in vain. -/
theorem Consultation.run_cases (evictable : PageId → Bool) (pages : List PageId) :
    (∃ before p later, pages = before ++ p :: later ∧ (∀ q ∈ before, evictable q = false) ∧ evictable p = true ∧
        run evictable pages = ⟨some p, before ++ [p]⟩) ∨
      ((∀ q ∈ pages, evictable q = false) ∧ run evictable pages = ⟨none, pages⟩) := by
  induction pages with
  | nil => exact .inr ⟨fun q hq => by simp at hq, rfl⟩
  | cons p rest ih =>
    cases hp : evictable p with
    | true => exact .inl ⟨[], p, rest, rfl, fun q hq => by simp at hq, hp, by simp [run, hp]⟩
    | false =>
      rcases ih with ⟨before, q, later, hsplit, hbefore, hq, hrun⟩ | ⟨hrest, hrun⟩
      · refine .inl ⟨p :: before, q, later, by rw [hsplit]; rfl, ?_, hq, by simp [run, hp, hrun]⟩
        exact List.forall_mem_cons.2 ⟨hp, hbefore⟩
      · exact .inr ⟨List.forall_mem_cons.2 ⟨hp, hrest⟩, by simp [run, hp, hrun]⟩

namespace Recency

variable {r : Recency} {p q : PageId} {pages : List PageId}

/-! ### One list for each table of stamps -/

/-- Each page of the list has a stamp older than those of the pages after it. -/
def Ages (r : Recency) (pages : List PageId) : Prop :=
  pages.Pairwise fun p q => ∀ i j, r.lastAccess[p]? = some i → r.lastAccess[q]? = some j → i < j

theorem Ages.nodup (hages : r.Ages pages) (hmem : ∀ p ∈ pages, (r.lastAccess[p]?).isSome = true) :
    pages.Nodup := by
  refine List.Pairwise.imp_of_mem (fun {p q} hp _ hlt => ?_) hages
  rintro rfl
  obtain ⟨stamp, hstamp⟩ := Option.isSome_iff_exists.1 (hmem p hp)
  exact Nat.lt_irrefl stamp (hlt stamp stamp hstamp hstamp)

theorem Sound.nodup_oldestFirst (hr : r.Sound) : r.oldestFirst.Nodup :=
  Ages.nodup hr.pairwise_oldestFirst fun _ hp => (mem_oldestFirst_iff hr).1 hp

/-- The tracked pages can be ordered by their stamps in one way only. -/
theorem Sound.oldestFirst_eq (hr : r.Sound) (hmem : ∀ p, p ∈ pages ↔ (r.lastAccess[p]?).isSome = true)
    (hages : r.Ages pages) : r.oldestFirst = pages := by
  have hnodup : pages.Nodup := hages.nodup fun p hp => (hmem p).1 hp
  have hperm : r.oldestFirst.Perm pages :=
    (List.perm_ext_iff_of_nodup hr.nodup_oldestFirst hnodup).2 fun p => (mem_oldestFirst_iff hr).trans (hmem p).symm
  refine hperm.eq_of_pairwise (fun p q hp hq hlt hgt => ?_) hr.pairwise_oldestFirst hages
  obtain ⟨i, hi⟩ := Option.isSome_iff_exists.1 ((mem_oldestFirst_iff hr).1 hp)
  obtain ⟨j, hj⟩ := Option.isSome_iff_exists.1 ((hmem q).1 hq)
  exact absurd (hlt i j hi hj) (Nat.lt_asymm (hgt j i hj hi))

/-- The page accessed last comes last, and the others keep their order. -/
theorem Sound.oldestFirst_access (hr : r.Sound) (p : PageId) :
    (r.access p).oldestFirst = r.oldestFirst.erase p ++ [p] := by
  have hothers : ∀ q ∈ r.oldestFirst.erase p, q ≠ p := fun q hq =>
    ((hr.nodup_oldestFirst.mem_erase_iff).1 hq).1
  refine (hr.access p).oldestFirst_eq (fun q => ?_) ?_
  · rw [lastAccess_access, List.mem_append, hr.nodup_oldestFirst.mem_erase_iff, mem_oldestFirst_iff hr,
      List.mem_singleton]
    by_cases hq : q = p
    · simp [hq]
    · simp [hq]
  · refine List.pairwise_append.2 ⟨?_, List.pairwise_singleton _ _, fun q hq last hlast i j hi hj => ?_⟩
    · refine List.Pairwise.imp_of_mem (fun {a b} ha hb hlt => ?_) (hr.pairwise_oldestFirst.sublist List.erase_sublist)
      simpa only [lastAccess_access, if_neg (hothers a ha), if_neg (hothers b hb)] using hlt
    · obtain rfl := List.mem_singleton.1 hlast
      rw [lastAccess_access, if_neg (hothers q hq)] at hi
      rw [lastAccess_access, if_pos rfl] at hj
      exact Option.some.inj hj ▸ hr.past q i hi

/-- A page that is no longer tracked leaves the list as it was otherwise. -/
theorem Sound.oldestFirst_remove (hr : r.Sound) (p : PageId) :
    (r.remove p).oldestFirst = r.oldestFirst.erase p := by
  have hothers : ∀ q ∈ r.oldestFirst.erase p, q ≠ p := fun q hq =>
    ((hr.nodup_oldestFirst.mem_erase_iff).1 hq).1
  refine (hr.remove p).oldestFirst_eq (fun q => ?_) ?_
  · rw [lastAccess_remove, hr.nodup_oldestFirst.mem_erase_iff, mem_oldestFirst_iff hr]
    by_cases hq : q = p
    · simp [hq]
    · simp [hq]
  · refine List.Pairwise.imp_of_mem (fun {a b} ha hb hlt => ?_) (hr.pairwise_oldestFirst.sublist List.erase_sublist)
    simpa only [lastAccess_remove, if_neg (hothers a ha), if_neg (hothers b hb)] using hlt

theorem Sound.size_eq_length (hr : r.Sound) : r.size = r.oldestFirst.length := by
  have hperm : r.lastAccess.keys.Perm r.oldestFirst :=
    (List.perm_ext_iff_of_nodup Std.ExtTreeMap.nodup_keys hr.nodup_oldestFirst).2 fun p => by
      rw [mem_oldestFirst_iff hr, Std.ExtTreeMap.mem_keys, Std.ExtTreeMap.mem_iff_isSome_getElem?]
  rw [size, ← Std.ExtTreeMap.length_keys, hperm.length_eq]

/-! ### Any use of a recency -/

/-- What is done with a recency. -/
inductive Use where
  | access (p : PageId)
  | remove (p : PageId)

def Use.isAccess : Use → Bool
  | .access _ => true
  | .remove _ => false

/-- The recency after it was used. -/
def after (r : Recency) : Use → Recency
  | .access p => r.access p
  | .remove p => r.remove p

/-- The list of pages after the recency was used. -/
def reorder (pages : List PageId) : Use → List PageId
  | .access p => pages.erase p ++ [p]
  | .remove p => pages.erase p

theorem Sound.after (hr : r.Sound) : ∀ use : Use, (r.after use).Sound
  | .access p => hr.access p
  | .remove p => hr.remove p

theorem Sound.oldestFirst_after (hr : r.Sound) : ∀ use : Use, (r.after use).oldestFirst = reorder r.oldestFirst use
  | .access p => hr.oldestFirst_access p
  | .remove p => hr.oldestFirst_remove p

theorem clock_after (r : Recency) : ∀ use : Use, (r.after use).clock = r.clock + if use.isAccess then 1 else 0
  | .access p => rfl
  | .remove p => by
    rw [Recency.after, remove]
    split
    · rfl
    · rfl

theorem sound_uses (uses : List Use) : (uses.foldl after {}).Sound := by
  induction uses using List.reverseRecOn with
  | nil => exact sound_empty
  | append_singleton uses use ih =>
    rw [List.foldl_concat]
    exact ih.after use

theorem clock_uses (uses : List Use) : (uses.foldl after {}).clock = uses.countP Use.isAccess := by
  induction uses using List.reverseRecOn with
  | nil => rfl
  | append_singleton uses use ih =>
    rw [List.foldl_concat, clock_after, ih, List.countP_append, List.countP_singleton]

theorem oldestFirst_uses (uses : List Use) : (uses.foldl after {}).oldestFirst = uses.foldl reorder [] := by
  induction uses using List.reverseRecOn with
  | nil => rfl
  | append_singleton uses use ih =>
    rw [List.foldl_concat, List.foldl_concat, (sound_uses uses).oldestFirst_after, ih]

/-- **A recency behaves as the list of its pages in order of last access.** However it was used, its two tables of
stamps are inverse to one another, every stamp is below the clock, and the clock has counted the accesses: fewer
than `2 ^ 64` of them need no more than 64 bits. It tracks the pages of the list, each once, and for every
predicate it asks about them from the oldest to the newest until one is accepted, and about no page twice. -/
theorem refines_access_order (uses : List Use) :
    let r := uses.foldl after {}
    let pages := uses.foldl reorder []
    (∀ (p : PageId) (stamp : Nat), r.lastAccess[p]? = some stamp ↔ r.byAge[stamp]? = some p) ∧
      (∀ (p : PageId) (stamp : Nat), r.lastAccess[p]? = some stamp → stamp < r.clock) ∧
      r.clock = uses.countP Use.isAccess ∧
      pages.Nodup ∧ r.oldestFirst = pages ∧ (∀ p, p ∈ pages ↔ p ∈ r.lastAccess) ∧
      r.size = pages.length ∧ r.isEmpty = pages.isEmpty ∧
      ∀ evictable : PageId → Bool,
        (∃ before p later, pages = before ++ p :: later ∧ (∀ q ∈ before, evictable q = false) ∧
            evictable p = true ∧ r.victim? evictable = some p ∧ (r.consult evictable).asked = before ++ [p]) ∨
          ((∀ q ∈ pages, evictable q = false) ∧ r.victim? evictable = none ∧
            (r.consult evictable).asked = pages) := by
  intro r pages
  have hsound : r.Sound := sound_uses uses
  have hpages : r.oldestFirst = pages := oldestFirst_uses uses
  have hsize : r.size = pages.length := hpages ▸ hsound.size_eq_length
  refine ⟨hsound.stamps, hsound.past, clock_uses uses, hpages ▸ hsound.nodup_oldestFirst, hpages, fun p => ?_,
    hsize, ?_, fun evictable => ?_⟩
  · rw [← hpages, mem_oldestFirst_iff hsound, Std.ExtTreeMap.mem_iff_isSome_getElem?]
  · rw [size] at hsize
    rw [isEmpty, Std.ExtTreeMap.isEmpty_eq_size_beq_zero, hsize, Bool.eq_iff_iff, List.isEmpty_iff_length_eq_zero,
      beq_iff_eq]
  · have hconsult : r.consult evictable = Consultation.run evictable pages := by rw [consult, hpages]
    rw [victim?, hconsult]
    rcases Consultation.run_cases evictable pages with ⟨before, p, later, hsplit, hbefore, hp, hrun⟩ | ⟨hnone, hrun⟩
    · exact .inl ⟨before, p, later, hsplit, hbefore, hp, by rw [hrun], by rw [hrun]⟩
    · exact .inr ⟨hnone, by rw [hrun], by rw [hrun]⟩

end Recency

end HeapStore
