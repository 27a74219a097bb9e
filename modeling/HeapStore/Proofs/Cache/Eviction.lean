import HeapStore.Proofs.Cache.Tracking

/-!
# Which page is given up

A cache is `Bounded` if it is sound, its recency tracks its pages, and it holds no more pages than it has room for.
Its victim is the page that was not accessed for the longest time of those nobody holds
(`Cache.Bounded.victim_oldest`), and it has none only if all its pages are held
(`Cache.Bounded.victim?_eq_none_iff`). How long ago a page was accessed can be told from a list of all accesses
(`Recency.Follows`).

What callers hold is a matter of the objects (`Cache.holders`, `Cache.pageOf?`). Whatever the cache does on its own, as
many callers hold each object as before, and an object that is held goes on to be one of the same page
(`Cache.Minds`).
-/

namespace HeapStore

theorem HeapPage.id_markClean (page : HeapPage) : page.markClean.id = page.id := rfl

theorem Handle.eq_of_page_of_object {h h' : Handle} (hpage : h.page = h'.page) (hobject : h.object = h'.object) :
    h = h' := by
  cases h
  cases h'
  exact congr (congrArg mk hpage) hobject

/-! ### The accesses so far -/

namespace Recency

variable {r : Recency} {p q : PageId} {log : List PageId}

/-- The recency is that of these accesses, the last one first: a stamp tells how many came after it. -/
structure Follows (r : Recency) (log : List PageId) : Prop where
  clock : r.clock = log.length
  last : ∀ p stamp, r.lastAccess[p]? = some stamp → log.idxOf p + stamp + 1 = log.length

theorem Follows.access (h : r.Follows log) (p : PageId) : (r.access p).Follows (p :: log) where
  clock := congrArg (· + 1) h.clock
  last q stamp hstamp := by
    rw [lastAccess_access] at hstamp
    split at hstamp
    · next heq =>
      obtain rfl := Option.some.inj hstamp
      rw [heq, List.idxOf_cons_self, h.clock, List.length_cons, Nat.zero_add]
    · next hne =>
      have hlast := h.last q stamp hstamp
      rw [List.idxOf_cons_ne _ (Ne.symm hne), List.length_cons]
      omega

theorem Follows.remove (h : r.Follows log) (p : PageId) : (r.remove p).Follows log where
  clock := by
    rw [Recency.remove]
    split
    · exact h.clock
    · exact h.clock
  last q stamp hstamp := by
    rw [lastAccess_remove] at hstamp
    split at hstamp
    · simp at hstamp
    · exact h.last q stamp hstamp

/-- Of two pages the one with the older stamp was accessed longer ago. -/
theorem Follows.lt_iff (h : r.Follows log) {i j : Nat} (hi : r.lastAccess[p]? = some i)
    (hj : r.lastAccess[q]? = some j) : i < j ↔ log.idxOf q < log.idxOf p := by
  have hp := h.last p i hi
  have hq := h.last q j hj
  omega

end Recency

namespace Cache

variable {c c' c'' : Cache} {p q : PageId} {h : Handle} {page old : HeapPage} {o : Nat} {log : List PageId}

/-! ### What callers hold -/

/-- How often callers hold an object. -/
def holders (c : Cache) (o : Nat) : Nat := c.frames[o]?.elim 0 (·.holders)

/-- The page that an object is one of. -/
def pageOf? (c : Cache) (o : Nat) : Option PageId := c.frames[o]?.map (·.page.id)

/-- Nothing changed for those who hold objects. -/
structure Minds (c c' : Cache) : Prop where
  capacity : c'.capacity = c.capacity
  holders : ∀ o, c'.holders o = c.holders o
  pageOf? : ∀ o, 0 < c.holders o → c'.pageOf? o = c.pageOf? o

theorem Minds.refl (c : Cache) : c.Minds c := ⟨rfl, fun _ => rfl, fun _ _ => rfl⟩

theorem Minds.trans (h : c.Minds c') (h' : c'.Minds c'') : c.Minds c'' :=
  ⟨h'.capacity.trans h.capacity, fun o => (h'.holders o).trans (h.holders o),
    fun o ho => (h'.pageOf? o (by rwa [h.holders])).trans (h.pageOf? o ho)⟩

theorem minds_of_frames (hcapacity : c'.capacity = c.capacity) (hframes : c'.frames = c.frames) : c.Minds c' :=
  ⟨hcapacity, fun o => by rw [holders, holders, hframes], fun o _ => by rw [Cache.pageOf?, Cache.pageOf?, hframes]⟩

theorem minds_touch (c : Cache) (p : PageId) : c.Minds (c.touch p) := minds_of_frames rfl rfl

theorem minds_setPage (hpage : c.page? h = some old) (hid : page.id = old.id) : c.Minds (c.setPage h page) := by
  refine ⟨rfl, fun o => ?_, fun o _ => ?_⟩
  · unfold holders
    rw [getElem?_frames_setPage]
    split
    · cases c.frames[o]? <;> rfl
    · rfl
  · unfold Cache.pageOf?
    rw [getElem?_frames_setPage]
    split
    · next heq =>
      have hframes : c.frames[h.object]?.map (·.page) = some old := hpage
      obtain ⟨frame, hframe, rfl⟩ := Option.map_eq_some_iff.1 hframes
      rw [← heq, hframe, Option.map_some, Option.map_some, Option.map_some, hid]
    · rfl

theorem minds_load (hc : c.Sound) (hmissing : c.handle? page.id = none) : c.Minds (c.load page).2 := by
  have hnew : c.frames[c.nextObject]? = none := by
    cases hframe : c.frames[c.nextObject]? with
    | none => rfl
    | some frame => exact absurd (hc.fresh _ frame hframe) (Nat.lt_irrefl _)
  have hframes : ∀ o, (c.load page).2.frames[o]? = if c.nextObject = o then some ⟨page, 0⟩ else c.frames[o]? := by
    intro o
    rw [load_eq hmissing]
    show (c.frames.insert c.nextObject ⟨page, 0⟩)[o]? = _
    rw [Std.ExtTreeMap.getElem?_insert]
    simp only [Std.compare_eq_iff_eq]
  refine ⟨capacity_load hmissing, fun o => ?_, fun o ho => ?_⟩
  · unfold holders
    rw [hframes]
    split
    · next heq => rw [← heq, hnew]; rfl
    · rfl
  · unfold Cache.pageOf?
    rw [hframes, if_neg]
    rintro rfl
    rw [holders, hnew] at ho
    exact Nat.lt_irrefl 0 ho

/-- An object that is forgotten was held by nobody. -/
theorem minds_sweep (c : Cache) (p : PageId) (o : Nat) : c.Minds (c.sweep p o) := by
  unfold sweep
  split
  · next hsweep =>
    have hunheld : c.holders o = 0 := by
      rw [Bool.and_eq_true] at hsweep
      unfold holders
      cases hframe : c.frames[o]? with
      | none => rfl
      | some frame => simpa [hframe] using hsweep.2
    have hframes : ∀ o', (c.frames.erase o)[o']? = if o = o' then none else c.frames[o']? := by
      intro o'
      rw [Std.ExtTreeMap.getElem?_erase]
      simp only [Std.compare_eq_iff_eq]
    refine ⟨rfl, fun o' => ?_, fun o' ho' => ?_⟩
    · show ((c.frames.erase o)[o']?).elim 0 (·.holders) = c.holders o'
      rw [hframes]
      split
      · next heq => rw [← heq, hunheld]; rfl
      · rfl
    · show ((c.frames.erase o)[o']?).map (·.page.id) = c.pageOf? o'
      rw [hframes, if_neg]
      · rfl
      · rintro rfl
        rw [hunheld] at ho'
        exact Nat.lt_irrefl 0 ho'
  · exact .refl c

theorem minds_remove (c : Cache) (p : PageId) : c.Minds (c.remove p) := by
  unfold remove
  dsimp only
  split
  · exact minds_of_frames rfl rfl
  · have hforgot : c.Minds { c with resident := c.resident.erase p, recency := c.recency.remove p } :=
      minds_of_frames rfl rfl
    exact hforgot.trans (minds_sweep _ p _)

theorem pageOf?_eq (h : Handle) : c.pageOf? h.object = (c.page? h).map (·.id) := by
  rw [Cache.pageOf?, page?, Option.map_map]
  rfl

theorem pageOf?_of_page? (hpage : c.page? h = some page) (hid : page.id = h.page) :
    c.pageOf? h.object = some h.page := by rw [pageOf?_eq, hpage, Option.map_some, hid]

theorem isHeld_iff : c.isHeld h = true ↔ c.pageOf? h.object = some h.page ∧ 0 < c.holders h.object := by
  unfold isHeld Cache.pageOf? holders
  cases c.frames[h.object]? <;> simp

theorem pageOf?_withHolders (object : Nat) (f : Nat → Nat) (o : Nat) :
    (c.withHolders object f).pageOf? o = c.pageOf? o := by
  unfold Cache.pageOf? withHolders
  rw [getElem?_frames_holders]
  split
  · rw [Option.map_map]
    rfl
  · rfl

theorem holders_withHolders {object : Nat} {f : Nat → Nat} (hf : (c.pageOf? object).isSome = true ∨ f 0 = 0) (o : Nat) :
    (c.withHolders object f).holders o = if object = o then f (c.holders o) else c.holders o := by
  unfold holders withHolders
  rw [getElem?_frames_holders]
  split
  · next heq =>
    subst heq
    cases hframe : c.frames[object]? with
    | some frame => rfl
    | none =>
      rw [Cache.pageOf?, hframe] at hf
      exact (hf.resolve_left (by simp)).symm
  · rfl

theorem holders_hold (hh : c.pageOf? h.object = some p) (o : Nat) :
    (c.hold h).holders o = if h.object = o then c.holders o + 1 else c.holders o :=
  holders_withHolders (f := (· + 1)) (Or.inl (by rw [hh]; rfl)) o

theorem pageOf?_hold (h : Handle) (o : Nat) : (c.hold h).pageOf? o = c.pageOf? o :=
  pageOf?_withHolders h.object (· + 1) o

/-- Letting go is one holder less; an object that is forgotten then had no other. -/
theorem minds_letGo (c : Cache) (h : Handle) : (c.withHolders h.object (· - 1)).Minds (c.letGo h) :=
  minds_sweep _ h.page h.object

theorem holders_letGo (h : Handle) (o : Nat) :
    (c.letGo h).holders o = if h.object = o then c.holders o - 1 else c.holders o :=
  ((c.minds_letGo h).holders o).trans (holders_withHolders (f := (· - 1)) (Or.inr rfl) o)

theorem pageOf?_letGo (ho : 0 < (c.letGo h).holders o) : (c.letGo h).pageOf? o = c.pageOf? o := by
  rw [(c.minds_letGo h).holders] at ho
  exact ((c.minds_letGo h).pageOf? o ho).trans (pageOf?_withHolders h.object (· - 1) o)

/-! ### Caches that hold no more than they have room for -/

structure Bounded (c : Cache) : Prop extends Sound c, Tracked c where
  size_le : c.size ≤ c.capacity

theorem bounded_empty (capacity : Nat) : ({ capacity } : Cache).Bounded :=
  ⟨sound_empty capacity, tracked_empty capacity, Nat.zero_le _⟩

theorem Tracked.of_eq (hc : c.Tracked) (hresident : c'.resident = c.resident) (hrecency : c'.recency = c.recency) :
    c'.Tracked :=
  ⟨hrecency ▸ hc.recency, fun p => by rw [hrecency, hc.pages, handle?, handle?, hresident]⟩

theorem size_lt_of_not_full (h : c.isFull = false) : c.size < c.capacity :=
  Nat.not_le.1 (of_decide_eq_false h)

theorem Bounded.size_eq_of_full (hc : c.Bounded) (h : c.isFull = true) : c.size = c.capacity :=
  Nat.le_antisymm hc.size_le (of_decide_eq_true h)

theorem size_remove (c : Cache) (p : PageId) :
    (c.remove p).size = if (c.handle? p).isSome then c.size - 1 else c.size := by
  obtain ⟨hresident, -⟩ := c.remove_eq p
  rw [size, hresident, Std.ExtTreeMap.size_erase, ← isCached_eq]
  rfl

theorem size_pos (hh : c.handle? p = some h) : 0 < c.size := by
  refine Nat.pos_of_ne_zero fun hzero => ?_
  have hempty : c.resident = ∅ := Std.ExtTreeMap.eq_empty_iff_size_eq_zero.2 hzero
  rw [handle?, hempty] at hh
  simp at hh

theorem size_load (hmissing : c.handle? page.id = none) : (c.load page).2.size = c.size + 1 := by
  have hnot : c.resident.contains page.id = false := by
    rw [show c.resident.contains page.id = c.isCached page.id from rfl, isCached_eq, hmissing]
    rfl
  rw [load_eq hmissing]
  show (c.resident.insert page.id c.nextObject).size = c.resident.size + 1
  rw [Std.ExtTreeMap.size_insert, if_neg (by rw [hnot]; exact Bool.false_ne_true)]

/-- The page of any object may be replaced by one of the same id. -/
theorem Sound.setPage_of_id (hc : c.Sound) (hpage : c.page? h = some old) (hid : page.id = old.id) :
    (c.setPage h page).Sound where
  object q o hq := by
    obtain ⟨frame, hframe, hq'⟩ := hc.object q o hq
    rw [getElem?_frames_setPage]
    split
    · next heq =>
      have hold : some frame.page = some old := by
        rw [← hpage, page?, heq, hframe, Option.map_some]
      exact ⟨{ frame with page }, by rw [hframe, Option.map_some], hid.trans (Option.some.inj hold ▸ hq')⟩
    · exact ⟨frame, hframe, hq'⟩
  fresh o frame hframe := by
    rw [getElem?_frames_setPage] at hframe
    split at hframe
    · obtain ⟨frame', hframe', -⟩ := Option.map_eq_some_iff.1 hframe
      exact hc.fresh o frame' hframe'
    · exact hc.fresh o frame hframe

/-- The copies of other pages are other objects. -/
theorem Sound.copy?_setPage_of_ne (hc : c.Sound) (hid : c.pageOf? h.object = some h.page)
    (hnot : c.handle? q ≠ some h) (page : HeapPage) : (c.setPage h page).copy? q = c.copy? q := by
  rw [copy?_eq_bind, copy?_eq_bind]
  show (c.resident[q]?.bind fun o => (c.setPage h page).frames[o]?.map (·.page)) = _
  cases ho : c.resident[q]? with
  | none => rfl
  | some o =>
    have hne : h.object ≠ o := by
      rintro rfl
      obtain ⟨frame, hframe, hq⟩ := hc.object q _ ho
      rw [pageOf?, hframe, Option.map_some, hq, Option.some.injEq] at hid
      exact hnot (handle?_eq_some_iff.2 ⟨ho, hid.symm⟩)
    rw [Option.bind_some, Option.bind_some, getElem?_frames_setPage, if_neg hne]

theorem Bounded.touch (hc : c.Bounded) (hp : (c.handle? p).isSome = true) : (c.touch p).Bounded :=
  ⟨hc.toSound.touch p, hc.toTracked.touch hp, hc.size_le⟩

theorem Bounded.setPage (hc : c.Bounded) (hpage : c.page? h = some old) (hid : page.id = old.id) :
    (c.setPage h page).Bounded :=
  ⟨hc.toSound.setPage_of_id hpage hid, hc.toTracked.setPage h page, hc.size_le⟩

theorem Bounded.load (hc : c.Bounded) (hmissing : c.handle? page.id = none) (hroom : c.isFull = false) :
    (c.load page).2.Bounded := by
  refine ⟨hc.toSound.load hmissing, hc.toTracked.load hmissing, ?_⟩
  rw [size_load hmissing, capacity_load hmissing]
  exact size_lt_of_not_full hroom

theorem Bounded.remove (hc : c.Bounded) (p : PageId) : (c.remove p).Bounded := by
  obtain ⟨-, -, hcapacity⟩ := c.remove_eq p
  refine ⟨hc.toSound.remove p, hc.toTracked.remove p, ?_⟩
  have hle := hc.size_le
  rw [size_remove, hcapacity]
  split <;> omega

theorem Bounded.hold (hc : c.Bounded) (h : Handle) : (c.hold h).Bounded :=
  ⟨hc.toSound.hold h, hc.toTracked.of_eq rfl rfl, hc.size_le⟩

theorem letGo_eq (c : Cache) (h : Handle) :
    (c.letGo h).resident = c.resident ∧ (c.letGo h).recency = c.recency ∧ (c.letGo h).capacity = c.capacity :=
  sweep_eq _ h.page h.object

theorem Bounded.letGo (hc : c.Bounded) (hh : c.isHeld h = true) : (c.letGo h).Bounded := by
  obtain ⟨hresident, hrecency, hcapacity⟩ := c.letGo_eq h
  refine ⟨hc.toSound.letGo hh, hc.toTracked.of_eq hresident hrecency, ?_⟩
  rw [size, hresident, hcapacity]
  exact hc.size_le

/-! ### The page to give up -/

theorem isEvictable_iff (hh : c.handle? p = some h) : c.isEvictable p = true ↔ c.holders h.object = 0 := by
  obtain ⟨hresident, -⟩ := handle?_eq_some_iff.1 hh
  unfold isEvictable holders
  rw [hresident]
  dsimp only
  cases c.frames[h.object]? <;> simp

/-- The victim is cached, and held by nobody. -/
theorem Bounded.victim?_eq_some (hc : c.Bounded) (hp : c.victim? = some p) :
    ∃ h, c.handle? p = some h ∧ c.holders h.object = 0 := by
  obtain ⟨htracked, hevictable, -⟩ := hc.recency.victim?_eq_some hp
  rw [hc.pages] at htracked
  obtain ⟨h, hh⟩ := Option.isSome_iff_exists.1 htracked
  exact ⟨h, hh, (isEvictable_iff hh).1 hevictable⟩

theorem Bounded.victim_ne (hc : c.Bounded) (hp : c.victim? = some p) (hh : c.handle? q = some h)
    (hheld : 0 < c.holders h.object) : q ≠ p := by
  rintro rfl
  obtain ⟨h', hh', hunheld⟩ := hc.victim?_eq_some hp
  obtain rfl := Option.some.inj (hh.symm.trans hh')
  exact Nat.ne_of_gt hheld hunheld

/-- No page can be given up only if all of them are held. -/
theorem Bounded.victim?_eq_none_iff (hc : c.Bounded) :
    c.victim? = none ↔ ∀ q h, c.handle? q = some h → 0 < c.holders h.object := by
  refine hc.recency.victim?_eq_none_iff.trans ⟨fun hnone q h hh => ?_, fun hheld q hq => ?_⟩
  · have hnot := hnone q (by rw [hc.pages, hh]; rfl)
    exact Nat.pos_of_ne_zero fun hzero => by
      rw [(isEvictable_iff hh).2 hzero] at hnot
      simp at hnot
  · rw [hc.pages] at hq
    obtain ⟨h, hh⟩ := Option.isSome_iff_exists.1 hq
    rw [Bool.eq_false_iff]
    exact fun hevictable => Nat.lt_irrefl 0 ((isEvictable_iff hh).1 hevictable ▸ hheld q h hh)

/-! ### Giving a page up -/

/-- The cache without the copy that an object is; if its page counted as changed, it was written before. -/
def giveUp (c : Cache) (h : Handle) (page : HeapPage) : Cache :=
  (if page.isDirty then c.setPage h page.markClean else c).remove h.page

theorem handle?_giveUp (c : Cache) (h : Handle) (page : HeapPage) (q : PageId) :
    (c.giveUp h page).handle? q = if q = h.page then none else c.handle? q := by
  rw [giveUp, handle?_remove_eq]
  split
  · rfl
  · split <;> rfl

theorem recency_giveUp (c : Cache) (h : Handle) (page : HeapPage) :
    (c.giveUp h page).recency = c.recency.remove h.page := by
  obtain ⟨-, hrecency, -⟩ := (if page.isDirty then c.setPage h page.markClean else c).remove_eq h.page
  rw [giveUp, hrecency]
  split <;> rfl

theorem minds_giveUp (hpage : c.page? h = some page) : c.Minds (c.giveUp h page) := by
  unfold giveUp
  split
  · exact (minds_setPage hpage page.id_markClean).trans (minds_remove _ h.page)
  · exact minds_remove c h.page

theorem Bounded.giveUp (hc : c.Bounded) (hpage : c.page? h = some page) : (c.giveUp h page).Bounded := by
  unfold Cache.giveUp
  split
  · exact (hc.setPage hpage page.id_markClean).remove h.page
  · exact hc.remove h.page

theorem Bounded.copy?_giveUp (hc : c.Bounded) (hh : c.handle? p = some h) (hpage : c.page? h = some page)
    (hq : q ≠ p) : (c.giveUp h page).copy? q = c.copy? q := by
  have hp : h.page = p := (handle?_eq_some_iff.1 hh).2
  unfold Cache.giveUp
  split
  · rw [(hc.setPage hpage page.id_markClean).copy?_remove, hp, if_neg hq, hc.copy?_setPage hh, if_neg hq]
  · rw [hc.copy?_remove, hp, if_neg hq]

theorem size_giveUp (hh : c.handle? p = some h) (page : HeapPage) : (c.giveUp h page).size = c.size - 1 := by
  obtain ⟨hresident, hp⟩ := handle?_eq_some_iff.1 hh
  have hcached : (c.handle? h.page).isSome = true := by rw [hp, hh]; rfl
  unfold giveUp
  split
  · rw [size_remove, handle?_setPage, if_pos hcached]
    rfl
  · rw [size_remove, if_pos hcached]

theorem capacity_giveUp (c : Cache) (h : Handle) (page : HeapPage) : (c.giveUp h page).capacity = c.capacity := by
  obtain ⟨-, -, hcapacity⟩ := (if page.isDirty then c.setPage h page.markClean else c).remove_eq h.page
  rw [giveUp, hcapacity]
  split <;> rfl

/-- There is room then. -/
theorem Bounded.isFull_giveUp (hc : c.Bounded) (hh : c.handle? p = some h) (page : HeapPage) :
    (c.giveUp h page).isFull = false := by
  have hle := hc.size_le
  have hpos := size_pos hh
  rw [isFull, size_giveUp hh, capacity_giveUp, decide_eq_false_iff_not]
  omega

end Cache

end HeapStore
