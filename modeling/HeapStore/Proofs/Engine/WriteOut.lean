import HeapStore.Proofs.Engine.Accesses
import HeapStore.Proofs.Engine.AtWork
import HeapStore.Proofs.Engine.Footprint

/-!
# What is written to the disk

A flush goes through the cached pages and writes those that are due. `Engine.Saved` says what is left of this: each of
these pages stands in its place on the disk, counts as unchanged, and was written once, and nothing else has changed. As
the places of two pages have no byte in common (`Engine.TablesOpen.covers_inj`), what is known of one write
(`Op.ends_writeBack_saved`) adds up to what is known of all of them (`Op.ends_flushEach_saved`). This determines the
state (`Engine.Saved.unique`), so it makes no difference in which order the pages are gone through
(`Op.run_flushEach_of_perm`).

A commit is a flush of the transaction's pages after which the locks are given up; an abort only gives them up.
`Engine.Worked.writes_exact` puts this together.
-/

namespace HeapStore

namespace Disk

variable {d d' : Disk} {bytes data : List UInt8} {file : List String} {offset length i : Nat}

theorem getElem?_overwrite_of_outside (h : offset ≤ bytes.length) (hi : i < offset ∨ offset + data.length ≤ i) :
    (overwrite bytes offset data)[i]? = bytes[i]? := by
  have hsame : ((overwrite bytes offset data).drop i).take 1 = (bytes.drop i).take 1 :=
    take_drop_overwrite_of_disjoint h hi
  have hhead := congrArg (·[0]?) hsame
  simp only [List.getElem?_take_of_lt Nat.one_pos, List.getElem?_drop, Nat.add_zero] at hhead
  exact hhead

theorem getElem?_read (h : i < length) : (d.read file offset length)[i]? = (d.contents file)[offset + i]? := by
  rw [read, List.getElem?_take_of_lt h, List.getElem?_drop]

theorem read_congr
    (h : ∀ i < length, (d'.contents file)[offset + i]? = (d.contents file)[offset + i]?) :
    d'.read file offset length = d.read file offset length := by
  refine List.ext_getElem? fun i => ?_
  by_cases hi : i < length
  · rw [getElem?_read hi, getElem?_read hi, h i hi]
  · rw [read, read, List.getElem?_take_eq_none (Nat.not_lt.1 hi), List.getElem?_take_eq_none (Nat.not_lt.1 hi)]

end Disk

/-- Some more writes to the file are counted. -/
def HeapFile.countWrites (f : HeapFile) (n : Nat) : HeapFile := { f with numWrites := f.numWrites + n }

theorem HeapFile.countWrites_countWrites (f : HeapFile) (m n : Nat) :
    (f.countWrites m).countWrites n = f.countWrites (m + n) := by
  rw [countWrites, countWrites, countWrites, Nat.add_assoc]

/-! ### Objects that count as unchanged -/

namespace Cache

variable {c c' c₁ c₂ : Cache} {h : Handle} {page : HeapPage} {objects rest : List Handle}

/-- The pages of these objects count as unchanged now. Nothing else has happened to the cache: the same pages are
cached, they were accessed in the same order, and callers hold the same objects. -/
structure Cleans (objects : List Handle) (c c' : Cache) : Prop where
  rest : ∃ frames, c' = { c with frames }
  frames : ∀ o, c'.frames[o]? = if o ∈ objects.map (·.object)
    then (c.frames[o]?).map fun frame => { frame with page := frame.page.markClean } else c.frames[o]?

theorem cleans_nil (c : Cache) : Cleans [] c c := ⟨⟨c.frames, rfl⟩, fun _ => rfl⟩

theorem cleans_setPage (hpage : c.page? h = some page) : Cleans [h] c (c.setPage h page.markClean) := by
  refine ⟨⟨_, rfl⟩, fun o => ?_⟩
  obtain ⟨frame, hframe, rfl⟩ := Option.map_eq_some_iff.1 hpage
  rw [getElem?_frames_setPage, List.map_singleton]
  by_cases ho : h.object = o
  · subst ho
    rw [if_pos rfl, if_pos (List.mem_singleton_self _), hframe]
    rfl
  · rw [if_neg ho, if_neg fun hmem => ho (List.mem_singleton.1 hmem).symm]

theorem Cleans.cons (hfirst : Cleans [h] c c₁) (hrest : Cleans rest c₁ c') : Cleans (h :: rest) c c' := by
  obtain ⟨frames, rfl⟩ := hfirst.rest
  obtain ⟨frames', rfl⟩ := hrest.rest
  refine ⟨⟨frames', rfl⟩, fun o => ?_⟩
  rw [hrest.frames, hfirst.frames]
  simp only [List.map_cons, List.map_nil, List.mem_cons, List.not_mem_nil, or_false]
  by_cases ho : o = h.object
  · -- Marking a page twice comes to marking it once.
    rw [if_pos ho, if_pos (Or.inl ho), Option.map_map]
    split <;> rfl
  · rw [if_neg ho]
    exact if_congr (by rw [or_iff_right ho]) rfl rfl

theorem Cleans.perm (hcleans : Cleans objects c c') (hperm : objects.Perm rest) : Cleans rest c c' :=
  ⟨hcleans.rest, fun o => (hcleans.frames o).trans (if_congr (hperm.map _).mem_iff rfl rfl)⟩

theorem Cleans.unique (h₁ : Cleans objects c c₁) (h₂ : Cleans objects c c₂) : c₁ = c₂ := by
  obtain ⟨frames₁, rfl⟩ := h₁.rest
  obtain ⟨frames₂, rfl⟩ := h₂.rest
  have hframes : frames₁ = frames₂ := Std.ExtTreeMap.ext_getElem? fun o => (h₁.frames o).trans (h₂.frames o).symm
  rw [hframes]

theorem Cleans.handle? (hcleans : Cleans objects c c') (q : PageId) : c'.handle? q = c.handle? q := by
  obtain ⟨frames, rfl⟩ := hcleans.rest
  rfl

theorem Cleans.page? (hcleans : Cleans objects c c') (h : Handle) :
    c'.page? h = if h.object ∈ objects.map (·.object) then (c.page? h).map HeapPage.markClean else c.page? h := by
  rw [Cache.page?, hcleans.frames, Cache.page?]
  split
  · rw [Option.map_map, Option.map_map]
    rfl
  · rfl

theorem Sound.object_ne {h' : Handle} (hc : c.Sound) (hh : c.handle? h.page = some h)
    (hh' : c.handle? h'.page = some h') (hne : h' ≠ h) : h'.object ≠ h.object := fun heq => by
  have hpage : h'.page = h.page :=
    hc.resident_inj (handle?_eq_some_iff.1 hh').1 (heq ▸ (handle?_eq_some_iff.1 hh).1)
  exact hne (Option.some.inj (by rw [← hh', hpage, hh]))

theorem nodup_handles (c : Cache) : c.handles.Nodup := by
  refine List.Pairwise.map _ (fun a b hne heq => hne ?_) Std.ExtTreeMap.distinct_keys_toList
  exact Std.compare_eq_iff_eq.2 (congrArg Handle.page heq)

end Cache

namespace Engine

variable {e e' e₁ e₂ : Engine} {p q : PageId} {h : Handle} {page : HeapPage} {t : TableId} {file : List String}
  {i : Nat} {objects rest : List Handle}

/-! ### Places on the disk -/

/-- Is this byte of the file in the place of the page? -/
def Covers (e : Engine) (p : PageId) (file : List String) (i : Nat) : Prop :=
  e.path? p.table = some file ∧ p.number * pageSize ≤ i ∧ i < p.number * pageSize + pageSize

theorem Covers.getElem?_contents (hcovers : e.Covers p file i) {bytes : List UInt8}
    (hbytes : e.diskBytes? p = some bytes) :
    (e.store.disk.contents file)[i]? = bytes[i - p.number * pageSize]? := by
  obtain ⟨hfile, hfrom, hto⟩ := hcovers
  rw [diskBytes?_eq, hfile, Option.map_some] at hbytes
  rw [← Option.some.inj hbytes, Disk.getElem?_read (by omega)]
  congr 1
  omega

theorem TablesOpen.covers_inj (he : e.TablesOpen) (hp : e.Covers p file i) (hq : e.Covers q file i) : p = q := by
  obtain ⟨hfile, hfrom, hto⟩ := hp
  obtain ⟨hfile', hfrom', hto'⟩ := hq
  obtain ⟨f, hf, hpath⟩ := Option.map_eq_some_iff.1 hfile
  obtain ⟨g, hg, hpath'⟩ := Option.map_eq_some_iff.1 hfile'
  have htable : p.table = q.table := he.paths _ _ f g hf hg (hpath.trans hpath'.symm)
  have hnumber : p.number = q.number := by
    by_contra hne
    have hdisjoint := HeapFile.places_disjoint hne
    omega
  exact PageId.mk.injEq .. ▸ ⟨htable, hnumber⟩

/-! ### What a flush leaves -/

/-- The pages of these objects were written to their places on the disk, each once, and count as unchanged now. Nothing
else has happened, neither to the other bytes of the files nor to the cache. -/
structure Saved (objects : List Handle) (e e' : Engine) : Prop where
  catalog : e'.catalog = e.catalog
  locks : e'.locks = e.locks
  nextTxn : e'.nextTxn = e.nextTxn
  cache : e.cache.Cleans objects e'.cache
  blocks : ∀ h ∈ objects, ∀ page, e.cache.page? h = some page → e'.diskBytes? h.page = some page.block.bytes
  elsewhere : ∀ file i, (∀ h ∈ objects, ¬ e.Covers h.page file i) →
    (e'.store.disk.contents file)[i]? = (e.store.disk.contents file)[i]?
  lengths : ∀ file, (e'.store.disk.contents? file).map List.length = (e.store.disk.contents? file).map List.length
  folders : e'.store.disk.folders = e.store.disk.folders
  writes : ∀ fd, e'.store.file? fd = (e.store.file? fd).map
    (·.countWrites (objects.countP fun h => e.catalog.file h.page.table = .ok fd))

theorem Saved.path? (hsaved : Saved objects e e') (t : TableId) : e'.path? t = e.path? t := by
  unfold Engine.path? file?
  rw [hsaved.catalog]
  cases e.catalog.byId[t]? with
  | none => rfl
  | some entry =>
    rw [Option.bind_some, Option.bind_some, hsaved.writes, Option.map_map]
    rfl

theorem Saved.covers_iff (hsaved : Saved objects e e') : e'.Covers p file i ↔ e.Covers p file i := by
  rw [Covers, Covers, hsaved.path?]

theorem Saved.diskBytes?_eq_of_not_mem (hsaved : Saved objects e e') (he : e.TablesOpen)
    (hp : ∀ h ∈ objects, h.page ≠ p) : e'.diskBytes? p = e.diskBytes? p := by
  rw [diskBytes?_eq, diskBytes?_eq, hsaved.path?]
  cases hfile : e.path? p.table with
  | none => rfl
  | some file =>
    refine congrArg some (Disk.read_congr fun i hi => ?_)
    refine hsaved.elsewhere _ _ fun h hmem hcovers => hp h hmem (he.covers_inj hcovers ⟨hfile, ?_, ?_⟩)
    · exact Nat.le_add_right _ _
    · exact Nat.add_lt_add_left hi _

theorem saved_nil (e : Engine) : Saved [] e e where
  catalog := rfl
  locks := rfl
  nextTxn := rfl
  cache := Cache.cleans_nil e.cache
  blocks := by simp
  elsewhere _ _ _ := rfl
  lengths _ := rfl
  folders := rfl
  writes fd := by
    rw [List.countP_nil]
    exact Option.map_id'.symm

/-- First one page is written, then others. -/
theorem Saved.cons (hfirst : Saved [h] e e₁) (hrest : Saved rest e₁ e') (he : e.Consistent) (he₁ : e₁.Consistent)
    (hcached : ∀ h' ∈ h :: rest, e.cache.handle? h'.page = some h') (hnew : h ∉ rest) : Saved (h :: rest) e e' := by
  have hh := hcached h List.mem_cons_self
  have hne : ∀ h' ∈ rest, h'.object ≠ h.object := fun h' hmem =>
    he.sound.object_ne hh (hcached h' (List.mem_cons_of_mem h hmem)) fun heq => hnew (heq ▸ hmem)
  refine ⟨hrest.catalog.trans hfirst.catalog, hrest.locks.trans hfirst.locks, hrest.nextTxn.trans hfirst.nextTxn,
    hfirst.cache.cons hrest.cache, fun h' hmem page hpage => ?_, fun file i hnone => ?_,
    fun file => (hrest.lengths file).trans (hfirst.lengths file), hrest.folders.trans hfirst.folders, fun fd => ?_⟩
  · obtain rfl | hlater := List.mem_cons.1 hmem
    · rw [hrest.diskBytes?_eq_of_not_mem he₁.toTablesOpen fun h'' hmem' heq => ?_]
      · exact hfirst.blocks h' (List.mem_singleton_self h') page hpage
      · have hcached' := hcached h'' (List.mem_cons_of_mem _ hmem')
        rw [heq, hh] at hcached'
        exact hnew (Option.some.inj hcached' ▸ hmem')
    · refine hrest.blocks h' hlater page ?_
      rw [hfirst.cache.page?, List.map_singleton, if_neg, hpage]
      exact fun hobject => hne h' hlater (List.mem_singleton.1 hobject)
  · rw [hrest.elsewhere file i fun h' hmem hcovers =>
      hnone h' (List.mem_cons_of_mem h hmem) (hfirst.covers_iff.1 hcovers)]
    refine hfirst.elsewhere file i fun h' hmem => ?_
    rw [List.mem_singleton.1 hmem]
    exact hnone h List.mem_cons_self
  · have hcount : ∀ P : Handle → Bool, (h :: rest).countP P = [h].countP P + rest.countP P := fun P => by
      show ([h] ++ rest).countP P = _
      rw [List.countP_append]
    rw [hrest.writes, hfirst.writes, hfirst.catalog, Option.map_map, hcount]
    exact congrArg (Option.map · _) (funext fun f => f.countWrites_countWrites _ _)

/-- Is the page of the object due to be written? -/
def isDue (e : Engine) (due : HeapPage → Bool) (h : Handle) : Bool := (e.cache.page? h).any due

/-- The cached copies of the pages that are due to be written. -/
def dueHandles (e : Engine) (due : HeapPage → Bool) : List Handle := e.cache.handles.filter (e.isDue due)

theorem mem_dueHandles {due : HeapPage → Bool} : h ∈ e.dueHandles due ↔
    e.cache.handle? h.page = some h ∧ ∃ page, e.cache.page? h = some page ∧ due page = true := by
  rw [dueHandles, List.mem_filter, Op.mem_handles, isDue, Option.any_eq_true]

theorem Saved.perm (hsaved : Saved objects e e') (hperm : objects.Perm rest) : Saved rest e e' where
  catalog := hsaved.catalog
  locks := hsaved.locks
  nextTxn := hsaved.nextTxn
  cache := hsaved.cache.perm hperm
  blocks h hmem := hsaved.blocks h (hperm.mem_iff.2 hmem)
  elsewhere file i hnone := hsaved.elsewhere file i fun h hmem => hnone h (hperm.mem_iff.1 hmem)
  lengths := hsaved.lengths
  folders := hsaved.folders
  writes fd := by rw [hsaved.writes, hperm.countP_eq]

/-- What a flush leaves is determined by the pages that it writes. -/
theorem Saved.unique (h₁ : Saved objects e e₁) (h₂ : Saved objects e e₂) (he : e.Consistent)
    (hcached : ∀ h ∈ objects, e.cache.handle? h.page = some h) : e₁ = e₂ := by
  have hbytes : ∀ file i, (e₁.store.disk.contents file)[i]? = (e₂.store.disk.contents file)[i]? := fun file i => by
    by_cases hplace : ∃ h ∈ objects, e.Covers h.page file i
    · obtain ⟨h, hmem, hcovers⟩ := hplace
      obtain ⟨page, hpage, -⟩ := he.sound.exists_copy (hcached h hmem)
      rw [(h₁.covers_iff.2 hcovers).getElem?_contents (h₁.blocks h hmem page hpage),
        (h₂.covers_iff.2 hcovers).getElem?_contents (h₂.blocks h hmem page hpage)]
    · have hnone : ∀ h ∈ objects, ¬ e.Covers h.page file i := fun h hmem hcovers => hplace ⟨h, hmem, hcovers⟩
      rw [h₁.elsewhere file i hnone, h₂.elsewhere file i hnone]
  have hcontents : ∀ file, e₁.store.disk.contents? file = e₂.store.disk.contents? file := fun file => by
    have hlength := (h₁.lengths file).trans (h₂.lengths file).symm
    have hsame := List.ext_getElem? (hbytes file)
    unfold Disk.contents at hsame
    cases hfirst : e₁.store.disk.contents? file with
    | none =>
      rw [hfirst, Option.map_none, eq_comm, Option.map_eq_none_iff] at hlength
      rw [hlength]
    | some bytes =>
      rw [hfirst, Option.map_some, eq_comm, Option.map_eq_some_iff] at hlength
      obtain ⟨bytes', hsecond, -⟩ := hlength
      rw [hfirst, hsecond] at hsame
      rw [hsecond, show bytes = bytes' from hsame]
  have hfiles : e₁.store.disk.files = e₂.store.disk.files := Std.ExtTreeMap.ext_getElem? hcontents
  have hfolders : e₁.store.disk.folders = e₂.store.disk.folders := h₁.folders.trans h₂.folders.symm
  have hopened : e₁.store.opened = e₂.store.opened :=
    List.ext_getElem? fun fd => (h₁.writes fd).trans (h₂.writes fd).symm
  calc e₁ = ⟨⟨⟨e₁.store.disk.folders, e₁.store.disk.files⟩, e₁.store.opened⟩, e₁.catalog, e₁.cache, e₁.locks,
        e₁.nextTxn⟩ := rfl
    _ = ⟨⟨⟨e₂.store.disk.folders, e₂.store.disk.files⟩, e₂.store.opened⟩, e₂.catalog, e₂.cache, e₂.locks,
        e₂.nextTxn⟩ := by
      rw [hfolders, hfiles, hopened, h₁.catalog, h₂.catalog, h₁.cache.unique h₂.cache, h₁.locks, h₂.locks, h₁.nextTxn,
        h₂.nextTxn]
    _ = e₂ := rfl

end Engine

namespace Op

open Engine

variable {e e' : Engine} {h : Handle}

/-! ### Flushes -/

/-- A cached page is written to its place on the disk and nowhere else. -/
theorem ends_writeBack_saved (he : e.Consistent) (hh : e.cache.handle? h.page = some h) :
    Ends (writeBack h) e (fun _ e' => Saved [h] e e') fun _ _ => False := by
  obtain ⟨page, hpage, hcopy, hid⟩ := he.sound.exists_copy hh
  obtain ⟨entry, f, ht, hf, hhas⟩ := he.exists_entry_of_copy hcopy
  have hdisk : f.OnDisk e.store.disk := he.onDisk ((file?_of_entry ht).trans hf)
  have hend := HeapFile.end_le hdisk hhas
  unfold writeBack setPage modifyCache
  simp only [ends_bind, ends_page hpage, hid, ends_tableFile ht, ends_onFiles,
    FileOp.ends_writeBlock hf hhas, ends_modify]
  refine ⟨rfl, rfl, rfl, Cache.cleans_setPage hpage, ?_, ?_, ?_, rfl, ?_⟩
  · intro h' hmem page' hpage'
    obtain rfl := List.mem_singleton.1 hmem
    obtain rfl := Option.some.inj (hpage.symm.trans hpage')
    rw [← hid] at ht hhas ⊢
    have hputs : e.Puts page (e.store.put entry.file f page.id page.block) := .intro (file_of_entry ht) hf hhas
    exact hputs.diskBytes? rfl rfl
  · intro file i hnone
    show ((e.store.disk.write f.path _ _).contents file)[i]? = _
    rw [Disk.contents_write]
    split
    · next hfile =>
      subst hfile
      refine Disk.getElem?_overwrite_of_outside (by omega) ?_
      rw [page.block.length_bytes]
      by_contra hinside
      have hpath : e.path? h.page.table = some f.path := by rw [path?, file?_of_entry ht, hf, Option.map_some]
      exact hnone h (List.mem_singleton_self h) ⟨hpath, by omega, by omega⟩
    · rfl
  · intro file
    show ((e.store.disk.write f.path _ _).contents? file).map List.length = _
    rw [Disk.contents?_write]
    split
    · next hfile =>
      subst hfile
      have hlength : (Disk.overwrite (e.store.disk.contents f.path) (h.page.number * pageSize)
          page.block.bytes).length = (e.store.disk.contents f.path).length := by
        rw [Disk.length_overwrite (by omega), page.block.length_bytes]
        omega
      rw [Option.map_some, hlength]
      unfold Disk.contents at hend ⊢
      cases hbytes : e.store.disk.contents? f.path with
      | none =>
        rw [hbytes, Option.getD_none, List.length_nil, pageSize] at hend
        omega
      | some bytes => rfl
    · rfl
  · intro fd
    show (e.store.put entry.file f h.page page.block).file? fd = _
    rw [FileStore.file?_put hf, List.countP_singleton, file_of_entry ht]
    by_cases hfd : fd = entry.file
    · subst hfd
      rw [if_pos rfl, hf]
      simp [HeapFile.countWrites, HeapFile.countWrite]
    · have hne : ¬ (Except.ok entry.file : Except StorageError Descriptor) = .ok fd := fun heq =>
        hfd (Except.ok.inj heq).symm
      rw [if_neg hfd, decide_eq_false hne]
      exact Option.map_id'.symm

/-- What is done with each page in turn: it is written if it is due. -/
def flushOne (due : HeapPage → Bool) (h : Handle) : Op Unit := do if due (← page h) then writeBack h

theorem run_flushWhere (e : Engine) (due : HeapPage → Bool) :
    (flushWhere due).run.run e = (e.cache.handles.forM (flushOne due)).run.run e := rfl

theorem ends_flushOne_saved (he : e.Consistent) (hh : e.cache.handle? h.page = some h) (due : HeapPage → Bool) :
    Ends (flushOne due h) e (fun _ e' => if e.isDue due h then Saved [h] e e' ∧ e'.Consistent else e' = e)
      fun _ _ => False := by
  obtain ⟨page, hpage, hcopy, -⟩ := he.sound.exists_copy hh
  have hdue : e.isDue due h = due page := by rw [isDue, hpage, Option.any_some]
  unfold flushOne
  rw [ends_bind, ends_page hpage, hdue]
  split
  · exact ((ends_writeBack_saved he hh).and (ends_writeBack he hh hcopy)).mono
      (fun _ _ ⟨hsaved, hcleaned⟩ => ⟨hsaved, hcleaned.consistent⟩) fun _ _ hfalse => hfalse.1
  · rfl

theorem ends_flushEach_saved (he : e.Consistent) (due : HeapPage → Bool) (handles : List Handle)
    (hcached : ∀ h ∈ handles, e.cache.handle? h.page = some h) (hnodup : handles.Nodup) :
    Ends (handles.forM (flushOne due)) e
      (fun _ e' => Saved (handles.filter (e.isDue due)) e e' ∧ e'.Consistent) fun _ _ => False := by
  induction handles generalizing e with
  | nil => exact ⟨saved_nil e, he⟩
  | cons h rest ih =>
    obtain ⟨hnew, hnodup⟩ := List.nodup_cons.1 hnodup
    have hh := hcached h List.mem_cons_self
    have hrest : ∀ h' ∈ rest, e.cache.handle? h'.page = some h' := fun h' hmem =>
      hcached h' (List.mem_cons_of_mem h hmem)
    rw [List.forM_eq_forM, List.forM_cons, ends_bind, List.filter_cons]
    refine (ends_flushOne_saved he hh due).mono ?_ fun _ _ hfalse => hfalse
    intro _ e₁ hone
    split at hone
    · next hdue =>
      obtain ⟨hfirst, he₁⟩ := hone
      rw [if_pos hdue]
      -- What is due later is due now: the first page is none of the later ones.
      have hsame : rest.filter (e₁.isDue due) = rest.filter (e.isDue due) := List.filter_congr fun h' hmem => by
        have hne := he.sound.object_ne hh (hrest h' hmem) fun heq => hnew (heq ▸ hmem)
        rw [isDue, isDue, hfirst.cache.page?, List.map_singleton,
          if_neg (fun hobject => hne (List.mem_singleton.1 hobject))]
      have hlater := ih he₁ (fun h' hmem => (hfirst.cache.handle? _).trans (hrest h' hmem)) hnodup
      rw [hsame] at hlater
      refine hlater.mono_ok fun _ e' ⟨hsaved, he'⟩ => ⟨hfirst.cons hsaved he he₁ ?_ ?_, he'⟩
      · rintro h' hmem
        obtain rfl | hmem := List.mem_cons.1 hmem
        · exact hh
        · exact hrest h' (List.mem_of_mem_filter hmem)
      · exact fun hmem => hnew (List.mem_of_mem_filter hmem)
    · next hdue =>
      obtain rfl := hone
      rw [if_neg hdue]
      exact ih he hrest hnodup

theorem exists_run_flushEach (he : e.Consistent) (due : HeapPage → Bool) {handles : List Handle}
    (hperm : handles.Perm e.cache.handles) : ∃ e', (handles.forM (flushOne due)).run.run e = (.ok (), e') ∧
      Saved (e.dueHandles due) e e' ∧ e'.Consistent := by
  have hends := ends_flushEach_saved he due handles (fun h hmem => mem_handles.1 (hperm.mem_iff.1 hmem))
    (hperm.nodup_iff.2 e.cache.nodup_handles)
  unfold Ends at hends
  split at hends
  · next e' hrun => exact ⟨e', hrun, hends.1.perm (hperm.filter _), hends.2⟩
  · exact hends.elim

/-- It makes no difference in which order the pages are gone through. -/
theorem run_flushEach_of_perm (he : e.Consistent) (due : HeapPage → Bool) {handles : List Handle}
    (hperm : handles.Perm e.cache.handles) :
    (handles.forM (flushOne due)).run.run e = (flushWhere due).run.run e := by
  obtain ⟨e₁, hrun₁, hsaved₁, -⟩ := exists_run_flushEach he due hperm
  obtain ⟨e₂, hrun₂, hsaved₂, -⟩ := exists_run_flushEach he due (List.Perm.refl e.cache.handles)
  have hsame : e₁ = e₂ := hsaved₁.unique hsaved₂ he fun h hmem => (mem_dueHandles.1 hmem).1
  rw [run_flushWhere, hrun₁, hrun₂, hsame]

theorem exists_run_flushWhere (he : e.Consistent) (due : HeapPage → Bool) :
    ∃ e', (flushWhere due).run.run e = (.ok (), e') ∧ Saved (e.dueHandles due) e e' ∧ e'.Consistent := by
  rw [run_flushWhere]
  exact exists_run_flushEach he due (List.Perm.refl e.cache.handles)

end Op

/-! ### The end of a transaction -/

/-- The transaction holds no lock any more. Nothing else has happened to the locks: everybody else holds what they held,
the same requests wait, and both sides of the table agree. -/
structure LockTable.Quits (txn : TxnId) (t t' : LockTable) : Prop where
  modes : ∀ q u, t'.mode? q u = if u = txn then none else t.mode? q u
  pages : t'.lockedPages txn = []
  waiters : ∀ q, (t'.locks q).waiters = (t.locks q).waiters
  coherent : t'.Coherent

theorem LockTable.Coherent.quits_releaseAll {t : LockTable} (h : t.Coherent) (txn : TxnId) :
    Quits txn t (t.releaseAll txn) := by
  have hlocks : ∀ q, (t.releaseAll txn).locks q = (t.locks q).release txn := fun q => by
    rw [h.releaseAll_eq fun _ => Iff.rfl, h.locks_releaseEach fun _ => Iff.rfl]
  refine ⟨mode?_of_released hlocks, ?_, fun q => by rw [hlocks]; rfl, h.releaseAll txn⟩
  refine List.eq_nil_iff_forall_not_mem.2 fun q hq => ?_
  rw [mem_lockedPages, (h.releaseAll txn).indexed, holds, mode?_of_released hlocks, if_pos rfl] at hq
  simp at hq

namespace Engine

variable {e e' : Engine} {due : HeapPage → Bool}

/-- Of the cached copies exactly those are marked that were due. -/
theorem Saved.copy? (hsaved : Saved (e.dueHandles due) e e') (he : e.Consistent) (p : PageId) :
    e'.cache.copy? p = (e.cache.copy? p).map fun page => if due page then page.markClean else page := by
  cases hh : e.cache.handle? p with
  | none => rw [Cache.copy?_eq_none hh, Cache.copy?_eq_none ((hsaved.cache.handle? p).trans hh), Option.map_none]
  | some h =>
    obtain rfl := (Cache.handle?_eq_some_iff.1 hh).2
    obtain ⟨page, hpage, -⟩ := he.sound.exists_copy hh
    rw [Cache.copy?_eq_of_handle? ((hsaved.cache.handle? _).trans hh), Cache.copy?_eq_of_handle? hh,
      hsaved.cache.page?, hpage, Option.map_some, Option.map_some]
    by_cases hdue : due page = true
    · have hmem : h ∈ e.dueHandles due := mem_dueHandles.2 ⟨hh, page, hpage, hdue⟩
      rw [if_pos hdue, if_pos (List.mem_map_of_mem hmem)]
    · rw [if_neg hdue, if_neg]
      rintro hobject
      obtain ⟨h', hmem, heq⟩ := List.mem_map.1 hobject
      obtain ⟨hh', page', hpage', hdue'⟩ := mem_dueHandles.1 hmem
      by_cases hsame : h' = h
      · subst hsame
        obtain rfl := Option.some.inj (hpage.symm.trans hpage')
        exact hdue hdue'
      · exact he.sound.object_ne hh hh' hsame heq

theorem run_commit_of_flush {txn : TxnId} (hrun : (Op.flushTxn txn).run.run e = (.ok (), e')) :
    (Op.commit txn).run.run e = (.ok (), { e' with locks := e'.locks.releaseAll txn }) := by
  have hends : Ends (Op.commit txn) e (fun _ e'' => e'' = { e' with locks := e'.locks.releaseAll txn })
      fun _ _ => False := by
    unfold Op.commit Op.releaseAll
    simp only [ends_bind, ends_tryCatch, ends_modify]
    exact (Op.ends_of_run hrun).2 rfl
  unfold Ends at hends
  split at hends
  · next heq => rw [heq, hends]
  · exact hends.elim

/-- **Commit and abort write exactly what they should.** Whatever has happened to an engine whose tables have files of
their own, a flush for a transaction succeeds. It writes the cached pages that the transaction was the last to change,
each of them once and to its place, and marks them as unchanged. No other byte of a file changes, no other page is
marked, the same pages are cached and they were accessed in the same order. A commit is such a flush; an abort does
nothing to files and pages. After either the transaction holds no lock and everybody else holds what they held. A flush
of everything leaves all cached pages unchanged as against their files. No flush depends on the order in which it goes
through the cached pages. -/
theorem Worked.writes_exact (h : Worked e) (txn : TxnId) :
    (∃ e', (Op.flushTxn txn).run.run e = (.ok (), e') ∧
      Saved (e.dueHandles fun page => page.dirtiedBy = some txn) e e' ∧
      (Op.commit txn).run.run e = (.ok (), { e' with locks := e.locks.releaseAll txn })) ∧
    (Op.abort txn).run.run e = (.ok (), { e with locks := e.locks.releaseAll txn }) ∧
    LockTable.Quits txn e.locks (e.locks.releaseAll txn) ∧
    (∃ e', Op.flushAll.run.run e = (.ok (), e') ∧ Saved (e.dueHandles HeapPage.isDirty) e e' ∧
      ∀ p page, e'.cache.copy? p = some page →
        page.dirtiedBy = none ∧ (e'.stored p).map (·.rows) = .ok page.rows) ∧
    ∀ (due : HeapPage → Bool) (handles : List Handle), handles.Perm e.cache.handles →
      (handles.forM (Op.flushOne due)).run.run e = (Op.flushWhere due).run.run e := by
  have he := h.consistent
  refine ⟨?_, rfl, h.coherent.quits_releaseAll txn, ?_, fun due handles => Op.run_flushEach_of_perm he due⟩
  · obtain ⟨e', hrun, hsaved, -⟩ := Op.exists_run_flushWhere he fun page => page.dirtiedBy = some txn
    refine ⟨e', hrun, hsaved, ?_⟩
    rw [run_commit_of_flush hrun, hsaved.locks]
  · obtain ⟨e', hrun, hsaved, he'⟩ := Op.exists_run_flushWhere he HeapPage.isDirty
    refine ⟨e', hrun, hsaved, fun p page hcopy => ?_⟩
    have hclean : page.dirtiedBy = none := by
      rw [hsaved.copy? he, Option.map_eq_some_iff] at hcopy
      obtain ⟨before, -, rfl⟩ := hcopy
      split
      · rfl
      · next hnot => simpa [HeapPage.isDirty] using hnot
    exact ⟨hclean, he'.clean p page hcopy hclean⟩

end Engine

open Engine

namespace Sample

/-- Two changed pages in the pool: the first one by a transaction that was aborted since, the second one by one that is
still at work. -/
def twoAuthors : Engine :=
  [insertApple, .abort 1, .insert 2 0 pear false].foldl (fun e c => c.after e)
    ((Op.addTable "words" "words" schema).run.run (.start .blank { poolPages := 3 })).2

theorem grown_twoAuthors : Grown twoAuthors :=
  Grown.calls (.event (.register "words" "words" schema) (.start .blank { poolPages := 3 })
    ⟨newPath_start _ _ _, fun _ _ => rfl⟩) _

set_option maxRecDepth 50000 in
theorem due_twoAuthors :
    twoAuthors.dueHandles (fun page => page.dirtiedBy = some 2) = [⟨⟨0, 1⟩, 1⟩] ∧
      twoAuthors.dueHandles HeapPage.isDirty = [⟨⟨0, 0⟩, 0⟩, ⟨⟨0, 1⟩, 1⟩] ∧
      twoAuthors.locks.mode? ⟨0, 1⟩ 2 = some .exclusive := by decide +kernel

end Sample

/-- The second transaction commits: its page is written and its lock is gone, and the page of the first one stays as it
is until everything is flushed. -/
theorem writes_exact_of_two_authors :
    (∃ e', (Op.commit 2).run.run Sample.twoAuthors =
        (.ok (), { e' with locks := Sample.twoAuthors.locks.releaseAll 2 }) ∧
      Saved [⟨⟨0, 1⟩, 1⟩] Sample.twoAuthors e') ∧
    (Sample.twoAuthors.locks.mode? ⟨0, 1⟩ 2 = some .exclusive ∧
      (Sample.twoAuthors.locks.releaseAll 2).mode? ⟨0, 1⟩ 2 = none) ∧
    ∃ e', Op.flushAll.run.run Sample.twoAuthors = (.ok (), e') ∧
      Saved [⟨⟨0, 0⟩, 0⟩, ⟨⟨0, 1⟩, 1⟩] Sample.twoAuthors e' := by
  obtain ⟨hsecond, hall, hlock⟩ := Sample.due_twoAuthors
  obtain ⟨⟨e', -, hsaved, hcommit⟩, -, hquits, ⟨e'', hrun, hsaved', -⟩, -⟩ :=
    Sample.grown_twoAuthors.worked.writes_exact 2
  rw [hsecond] at hsaved
  rw [hall] at hsaved'
  exact ⟨⟨e', hcommit, hsaved⟩, ⟨hlock, (hquits.modes ⟨0, 1⟩ 2).trans (if_pos rfl)⟩, e'', hrun, hsaved'⟩

end HeapStore
