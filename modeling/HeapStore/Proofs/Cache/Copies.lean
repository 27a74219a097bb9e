import HeapStore.Cache.Basic

/-!
# The cached copy of a page

What the rest of the engine sees of a cache is the cached copy of each page, `Cache.copy?`. In a cache that
is `Cache.Sound` the copy of a page is a live object for that page, so that no two pages share one; each
operation changes the copy of the page that it is about and of no other page:

* setting the page of a cached object (`Sound.copy?_setPage`), loading a page (`Sound.copy?_load`) and
  removing one (`Sound.copy?_remove`);
* accesses, and callers who begin or cease to hold an object, change no copy
  (`copy?_touch`, `copy?_hold`, `Sound.copy?_letGo`).
-/

namespace HeapStore.Cache

/-- The page in the cached copy of a page. -/
def copy? (c : Cache) (p : PageId) : Option HeapPage := (c.handle? p).bind c.page?

/-- Does a caller hold the object of this handle? -/
def isHeld (c : Cache) (h : Handle) : Bool :=
  c.frames[h.object]?.any fun frame => frame.page.id = h.page && 0 < frame.holders

structure Sound (c : Cache) : Prop where
  /-- The cached copy of a page is a live object, for this page. -/
  object : ∀ p o, c.resident[p]? = some o → ∃ frame : Frame, c.frames[o]? = some frame ∧ frame.page.id = p
  /-- No live object has the number of the next one. -/
  fresh : ∀ o frame, c.frames[o]? = some frame → o < c.nextObject

variable {c : Cache} {p q : PageId} {h : Handle} {page : HeapPage}

theorem handle?_eq_some_iff : c.handle? p = some h ↔ c.resident[p]? = some h.object ∧ h.page = p := by
  obtain ⟨id, object⟩ := h
  unfold handle?
  cases c.resident[p]? with
  | none => simp
  | some o => simp [Handle.mk.injEq, and_comm, eq_comm (a := p)]

theorem isCached_eq : c.isCached p = (c.handle? p).isSome := by
  unfold isCached handle?
  rw [Std.ExtTreeMap.contains_eq_isSome_getElem?, Option.isSome_map]

theorem copy?_eq_of_handle? (hh : c.handle? p = some h) : c.copy? p = c.page? h := by
  rw [copy?, hh, Option.bind_some]

theorem copy?_eq_none (hh : c.handle? p = none) : c.copy? p = none := by
  rw [copy?, hh, Option.bind_none]

/-- The copies are those objects of `frames` that `resident` names. -/
theorem copy?_eq_bind (p : PageId) :
    c.copy? p = c.resident[p]?.bind fun o => c.frames[o]?.map (·.page) := by
  unfold copy? handle? page?
  cases c.resident[p]? <;> rfl

theorem Sound.exists_copy (hc : c.Sound) (hh : c.handle? p = some h) :
    ∃ page, c.page? h = some page ∧ c.copy? p = some page ∧ page.id = p := by
  obtain ⟨hresident, rfl⟩ := handle?_eq_some_iff.1 hh
  obtain ⟨frame, hframe, hid⟩ := hc.object _ _ hresident
  have hpage : c.page? h = some frame.page := by rw [page?, hframe, Option.map_some]
  exact ⟨frame.page, hpage, (copy?_eq_of_handle? hh).trans hpage, hid⟩

theorem Sound.handle?_eq_none (hc : c.Sound) (h : c.copy? p = none) : c.handle? p = none := by
  cases hh : c.handle? p with
  | none => rfl
  | some h' =>
    obtain ⟨page, -, hcopy, -⟩ := hc.exists_copy hh
    rw [h] at hcopy
    simp at hcopy

theorem exists_handle (h : c.copy? p = some page) :
    ∃ handle, c.handle? p = some handle ∧ c.page? handle = some page :=
  Option.bind_eq_some_iff.1 h

theorem Sound.id_of_copy (hc : c.Sound) (h : c.copy? p = some page) : page.id = p := by
  obtain ⟨handle, hh, -⟩ := exists_handle h
  obtain ⟨page', -, hcopy, hid⟩ := hc.exists_copy hh
  rw [h] at hcopy
  exact Option.some.inj hcopy ▸ hid

/-- No two pages share an object. -/
theorem Sound.resident_inj (hc : c.Sound) {o : Nat} (hp : c.resident[p]? = some o)
    (hq : c.resident[q]? = some o) : p = q := by
  obtain ⟨frame, hframe, hid⟩ := hc.object p o hp
  obtain ⟨frame', hframe', hid'⟩ := hc.object q o hq
  rw [hframe] at hframe'
  obtain rfl := Option.some.inj hframe'
  exact hid.symm.trans hid'

theorem sound_empty (capacity : Nat) : ({ capacity } : Cache).Sound where
  object p o h := by simp at h
  fresh o frame h := by simp at h

/-! ### Accesses -/

@[simp] theorem handle?_touch : (c.touch p).handle? q = c.handle? q := rfl

@[simp] theorem copy?_touch : (c.touch p).copy? q = c.copy? q := rfl

theorem Sound.touch (hc : c.Sound) (p : PageId) : (c.touch p).Sound := ⟨hc.object, hc.fresh⟩

/-! ### The page of an object -/

@[simp] theorem handle?_setPage : (c.setPage h page).handle? q = c.handle? q := rfl

theorem getElem?_frames_setPage (o : Nat) :
    (c.setPage h page).frames[o]? =
      if h.object = o then c.frames[o]?.map (fun f => { f with page }) else c.frames[o]? := by
  unfold setPage
  rw [Std.ExtTreeMap.getElem?_modify]
  simp only [Std.compare_eq_iff_eq]
  split
  · next heq => rw [heq]
  · rfl

theorem Sound.copy?_setPage (hc : c.Sound) (hh : c.handle? p = some h) (page : HeapPage) (q : PageId) :
    (c.setPage h page).copy? q = if q = p then some page else c.copy? q := by
  obtain ⟨hresident, -⟩ := handle?_eq_some_iff.1 hh
  obtain ⟨frame, hframe, -⟩ := hc.object p _ hresident
  have hsame : (c.setPage h page).resident = c.resident := rfl
  rw [copy?_eq_bind, copy?_eq_bind, hsame]
  by_cases hq : q = p
  · subst hq
    simp [hresident, getElem?_frames_setPage, hframe]
  · rw [if_neg hq]
    cases ho : c.resident[q]? with
    | none => rfl
    | some o =>
      have hne : h.object ≠ o := fun heq => hq (hc.resident_inj ho (heq ▸ hresident))
      rw [Option.bind_some, Option.bind_some, getElem?_frames_setPage, if_neg hne]

theorem Sound.page?_setPage (hc : c.Sound) (hh : c.handle? p = some h) (page : HeapPage) :
    (c.setPage h page).page? h = some page := by
  rw [← copy?_eq_of_handle? (p := p) (by exact hh), hc.copy?_setPage hh, if_pos rfl]

theorem Sound.setPage (hc : c.Sound) (hh : c.handle? p = some h) (hid : page.id = p) :
    (c.setPage h page).Sound where
  object q o hq := by
    obtain ⟨hresident, -⟩ := handle?_eq_some_iff.1 hh
    obtain ⟨frame, hframe, hq'⟩ := hc.object q o hq
    rw [getElem?_frames_setPage]
    split
    · next heq =>
      have hpq : p = q := hc.resident_inj hresident (heq ▸ hq)
      exact ⟨{ frame with page }, by rw [hframe, Option.map_some], hid.trans hpq⟩
    · exact ⟨frame, hframe, hq'⟩
  fresh o frame hframe := by
    rw [getElem?_frames_setPage] at hframe
    split at hframe
    · obtain ⟨frame', hframe', -⟩ := Option.map_eq_some_iff.1 hframe
      exact hc.fresh o frame' hframe'
    · exact hc.fresh o frame hframe

/-- The last page set is the one that stays. -/
theorem setPage_setPage (a b : HeapPage) : (c.setPage h a).setPage h b = c.setPage h b := by
  have hframes : ((c.setPage h a).setPage h b).frames = (c.setPage h b).frames := by
    apply Std.ExtTreeMap.ext_getElem?
    intro o
    simp only [getElem?_frames_setPage]
    split
    · rw [Option.map_map]
      rfl
    · rfl
  unfold setPage at *
  rw [mk.injEq]
  exact ⟨rfl, hframes, rfl, rfl, rfl⟩

/-! ### Objects that nobody needs -/

/-- A cache that names no page by an object does not miss the object. -/
theorem Sound.sweep (hc : c.Sound) {o : Nat} (h : ∀ q, c.resident[q]? = some o → q = p) :
    (c.sweep p o).Sound ∧ ∀ q, (c.sweep p o).copy? q = c.copy? q := by
  unfold Cache.sweep
  split
  · next hsweep =>
    simp only [Bool.and_eq_true, decide_eq_true_eq] at hsweep
    have hne : ∀ (q : PageId) (o' : Nat), c.resident[q]? = some o' → o ≠ o' := by
      rintro q o' hq rfl
      exact hsweep.1 (h q hq ▸ hq)
    have hframes : ∀ (q : PageId) (o' : Nat), c.resident[q]? = some o' →
        (c.frames.erase o)[o']? = c.frames[o']? := by
      intro q o' hq
      rw [Std.ExtTreeMap.getElem?_erase]
      simp only [Std.compare_eq_iff_eq, hne q o' hq, if_false]
    refine ⟨⟨?_, ?_⟩, ?_⟩
    · intro q o' hq
      rw [hframes q o' hq]
      exact hc.object q o' hq
    · intro o' frame hframe
      rw [Std.ExtTreeMap.getElem?_erase] at hframe
      split at hframe
      · simp at hframe
      · exact hc.fresh o' frame hframe
    · intro q
      rw [copy?_eq_bind, copy?_eq_bind]
      cases ho : c.resident[q]? with
      | none => rfl
      | some o' => rw [Option.bind_some, Option.bind_some, hframes q o' ho]
  · exact ⟨hc, fun q => rfl⟩

/-! ### Loading and removing -/

/-- A page that is loaded while it is not cached takes no other page's place. -/
theorem load_eq (hh : c.handle? page.id = none) :
    c.load page = (⟨page.id, c.nextObject⟩,
      ({ c with
        frames := c.frames.insert c.nextObject ⟨page, 0⟩
        nextObject := c.nextObject + 1
        resident := c.resident.insert page.id c.nextObject } : Cache).touch page.id) := by
  have hresident : c.resident[page.id]? = none := by
    simpa [handle?] using hh
  unfold load place
  simp only [hresident]

theorem handle?_load (hh : c.handle? page.id = none) (q : PageId) :
    (c.load page).2.handle? q = if q = page.id then some (c.load page).1 else c.handle? q := by
  rw [load_eq hh]
  simp only [handle?_touch]
  unfold handle?
  simp only [Std.ExtTreeMap.getElem?_insert, Std.compare_eq_iff_eq, eq_comm (a := page.id)]
  split
  · next hq => rw [hq]; rfl
  · rfl

theorem Sound.copy?_load (hc : c.Sound) (hh : c.handle? page.id = none) (q : PageId) :
    (c.load page).2.copy? q = if q = page.id then some page else c.copy? q := by
  rw [load_eq hh]
  simp only [copy?_touch]
  rw [copy?_eq_bind, copy?_eq_bind]
  simp only [Std.ExtTreeMap.getElem?_insert, Std.compare_eq_iff_eq, eq_comm (a := page.id)]
  split
  · simp
  · cases ho : c.resident[q]? with
    | none => rfl
    | some o =>
      obtain ⟨frame, hframe, -⟩ := hc.object q o ho
      have hne : c.nextObject ≠ o := Nat.ne_of_gt (hc.fresh o frame hframe)
      simp [hne]

theorem Sound.load (hc : c.Sound) (hh : c.handle? page.id = none) : (c.load page).2.Sound := by
  rw [load_eq hh]
  refine Sound.touch ⟨fun q o hq => ?_, fun o frame hframe => ?_⟩ _
  · simp only [Std.ExtTreeMap.getElem?_insert, Std.compare_eq_iff_eq] at hq ⊢
    split at hq
    · next heq =>
      obtain rfl := Option.some.inj hq
      exact ⟨⟨page, 0⟩, if_pos rfl, heq⟩
    · obtain ⟨frame, hframe, hid⟩ := hc.object q o hq
      have hne : c.nextObject ≠ o := Nat.ne_of_gt (hc.fresh o frame hframe)
      exact ⟨frame, by rw [if_neg hne, hframe], hid⟩
  · simp only [Std.ExtTreeMap.getElem?_insert, Std.compare_eq_iff_eq] at hframe ⊢
    split at hframe
    · next heq => exact heq ▸ Nat.lt_succ_self _
    · exact Nat.lt_succ_of_lt (hc.fresh o frame hframe)

/-- The cache with the page forgotten, before its object is looked at. -/
theorem Sound.remove_spec (hc : c.Sound) (p : PageId) :
    (c.remove p).Sound ∧ ∀ q, (c.remove p).copy? q = if q = p then none else c.copy? q := by
  let forgot : Cache := { c with resident := c.resident.erase p, recency := c.recency.remove p }
  have hresident : ∀ q, forgot.resident[q]? = if q = p then none else c.resident[q]? := by
    intro q
    simp only [forgot, Std.ExtTreeMap.getElem?_erase, Std.compare_eq_iff_eq, eq_comm (a := p)]
  have hforgot : forgot.Sound := by
    refine ⟨fun q o hq => ?_, hc.fresh⟩
    rw [hresident] at hq
    split at hq
    · simp at hq
    · exact hc.object q o hq
  have hcopy : ∀ q, forgot.copy? q = if q = p then none else c.copy? q := by
    intro q
    rw [copy?_eq_bind, copy?_eq_bind, hresident]
    split <;> rfl
  unfold Cache.remove
  cases ho : c.resident[p]? with
  | none => exact ⟨hforgot, hcopy⟩
  | some o =>
    -- The removed page was the only one that its object was a copy of.
    have hunused : ∀ q, forgot.resident[q]? = some o → q = p := by
      intro q hq
      rw [hresident] at hq
      split at hq
      · simp at hq
      · exact hc.resident_inj hq ho
    obtain ⟨hsound, hsame⟩ := hforgot.sweep hunused
    exact ⟨hsound, fun q => (hsame q).trans (hcopy q)⟩

theorem Sound.remove (hc : c.Sound) (p : PageId) : (c.remove p).Sound := (hc.remove_spec p).1

theorem Sound.copy?_remove (hc : c.Sound) (p q : PageId) :
    (c.remove p).copy? q = if q = p then none else c.copy? q := (hc.remove_spec p).2 q

theorem Sound.copy?_of_copy?_remove (hc : c.Sound) (p : PageId) {q : PageId} {page : HeapPage}
    (h : (c.remove p).copy? q = some page) : c.copy? q = some page := by
  rw [hc.copy?_remove] at h
  split at h
  · simp at h
  · exact h

/-! ### Callers that hold objects -/

theorem getElem?_frames_holders {f : Nat → Nat} (o object : Nat) :
    (c.frames.modify object fun g => { g with holders := f g.holders })[o]? =
      if object = o then c.frames[o]?.map (fun g => { g with holders := f g.holders }) else c.frames[o]? := by
  rw [Std.ExtTreeMap.getElem?_modify]
  simp only [Std.compare_eq_iff_eq]
  split
  · next heq => rw [heq]
  · rfl

/-- The cache after the number of an object's holders changed. -/
def withHolders (c : Cache) (object : Nat) (f : Nat → Nat) : Cache :=
  { c with frames := c.frames.modify object fun g => { g with holders := f g.holders } }

/-- How often an object is held makes no difference to its page. -/
theorem page?_withHolders (object : Nat) (f : Nat → Nat) (h : Handle) :
    (c.withHolders object f).page? h = c.page? h := by
  unfold page? withHolders
  rw [getElem?_frames_holders]
  split
  · rw [Option.map_map]
    rfl
  · rfl

theorem copy?_withHolders (object : Nat) (f : Nat → Nat) (q : PageId) :
    (c.withHolders object f).copy? q = c.copy? q := by
  have hhandle : (c.withHolders object f).handle? q = c.handle? q := rfl
  rw [copy?, copy?, hhandle]
  congr 1
  funext h
  exact page?_withHolders object f h

theorem Sound.withHolders (hc : c.Sound) (object : Nat) (f : Nat → Nat) : (c.withHolders object f).Sound where
  object q o hq := by
    obtain ⟨frame, hframe, hid⟩ := hc.object q o hq
    unfold Cache.withHolders
    rw [getElem?_frames_holders]
    split
    · exact ⟨{ frame with holders := f frame.holders }, by rw [hframe, Option.map_some], hid⟩
    · exact ⟨frame, hframe, hid⟩
  fresh o frame hframe := by
    unfold Cache.withHolders at hframe
    rw [getElem?_frames_holders] at hframe
    split at hframe
    · obtain ⟨frame', hframe', -⟩ := Option.map_eq_some_iff.1 hframe
      exact hc.fresh o frame' hframe'
    · exact hc.fresh o frame hframe

theorem Sound.hold (hc : c.Sound) (h : Handle) : (c.hold h).Sound := hc.withHolders h.object (· + 1)

theorem page?_hold (h h' : Handle) : (c.hold h).page? h' = c.page? h' := page?_withHolders h.object (· + 1) h'

theorem copy?_hold (h : Handle) (q : PageId) : (c.hold h).copy? q = c.copy? q :=
  copy?_withHolders h.object (· + 1) q

theorem Sound.letGo_spec (hc : c.Sound) (hh : c.isHeld h = true) :
    (c.letGo h).Sound ∧ ∀ q, (c.letGo h).copy? q = c.copy? q := by
  obtain ⟨frame, hframe, hid⟩ :
      ∃ frame : Frame, c.frames[h.object]? = some frame ∧ frame.page.id = h.page := by
    obtain ⟨frame, hframe, hheld⟩ := (Option.any_eq_true ..).1 hh
    rw [Bool.and_eq_true, decide_eq_true_eq] at hheld
    exact ⟨frame, hframe, hheld.1⟩
  have honly : ∀ q, c.resident[q]? = some h.object → q = h.page := by
    intro q hq
    obtain ⟨frame', hframe', hid'⟩ := hc.object q _ hq
    rw [hframe] at hframe'
    obtain rfl := Option.some.inj hframe'
    exact hid'.symm.trans hid
  obtain ⟨hsound, hcopy⟩ := (hc.withHolders h.object (· - 1)).sweep honly
  exact ⟨hsound, fun q => (hcopy q).trans (copy?_withHolders h.object (· - 1) q)⟩

theorem Sound.letGo (hc : c.Sound) (hh : c.isHeld h = true) : (c.letGo h).Sound := (hc.letGo_spec hh).1

theorem Sound.copy?_letGo (hc : c.Sound) (hh : c.isHeld h = true) (q : PageId) :
    (c.letGo h).copy? q = c.copy? q :=
  (hc.letGo_spec hh).2 q

end HeapStore.Cache
