import HeapStore.Engine.Pages
import HeapStore.Proofs.Engine.Content

/-!
# Why the bytes of a page cannot be had

Reading and writing a page fails for one of a few causes (`StorageError.isPageFault`), none of which has to do with
locks, with room in the cache or with scans. Here it is shown of the files, in whatever state: of reading
(`FileOp.ends_readPage_any`), which only counts, and of writing (`FileOp.ends_writeBlock_any`), where a write that
fails changes nothing.
-/

namespace HeapStore

/-- The causes for which the bytes of a page cannot be read or written. -/
def StorageError.isPageFault : StorageError → Bool
  | io _ | pageNotFound _ | pageNotResident _ | invalidSchema _ | recordTooLarge _ | corruptPage _
  | tableNotFound _ => true
  | _ => false

variable {p : PageId} {cause : StorageError}

/-! ### Files -/

theorem Schema.checkStorable_fault {s : Schema} (h : s.checkStorable = .error cause) :
    cause.isPageFault = true := by
  unfold Schema.checkStorable at h
  split at h
  · obtain rfl := Except.error.inj h
    rfl
  · split at h
    · obtain rfl := Except.error.inj h
      rfl
    · simp at h

theorem HeapPage.decode_fault {s : Schema} {bytes : List UInt8} (h : decode p s bytes = .error cause) :
    cause.isPageFault = true := by
  unfold decode at h
  split at h
  · obtain rfl := Except.error.inj h
    rfl
  · split at h
    · next hschema =>
      obtain rfl := Except.error.inj h
      exact Schema.checkStorable_fault hschema
    · dsimp only at h
      split at h
      · obtain rfl := Except.error.inj h
        rfl
      · simp at h

/-- A page that there is can be damaged, but it is not missing. -/
theorem HeapPage.decode_ne_missing {s : Schema} {bytes : List UInt8} (q : PageId) :
    decode p s bytes ≠ .error (.pageNotFound q) := by
  intro h
  unfold decode at h
  split at h
  · simp at h
  · split at h
    · next hschema =>
      obtain rfl := Except.error.inj h
      unfold Schema.checkStorable at hschema
      split at hschema
      · exact nomatch Except.error.inj hschema
      · split at hschema
        · exact nomatch Except.error.inj hschema
        · simp at hschema
    · dsimp only at h
      split at h
      · exact nomatch Except.error.inj h
      · simp at h

namespace HeapFile

variable {f : HeapFile} {d : Disk}

theorem offset?_fault (h : f.offset? p = .error cause) : cause.isPageFault = true := by
  unfold offset? at h
  split at h
  · obtain rfl := Except.error.inj h
    rfl
  · simp at h

theorem readBlock_fault (h : f.readBlock d p = .error cause) : cause.isPageFault = true := by
  unfold readBlock at h
  cases hoffset : f.offset? p with
  | error cause' =>
    rw [hoffset] at h
    obtain rfl : cause' = cause := Except.error.inj h
    exact offset?_fault hoffset
  | ok offset =>
    simp only [hoffset, bind, Except.bind] at h
    split at h
    · simp at h
    · obtain rfl := Except.error.inj h
      rfl

end HeapFile

namespace FileOp

variable {s : FileStore}

theorem ends_file_any (fd : Descriptor) (s : FileStore) :
    Ends (file fd) s (fun f s' => s.file? fd = some f ∧ s' = s) fun cause s' => cause.isPageFault = true ∧ s' = s := by
  unfold file
  rw [ends_bind, ends_get]
  cases s.file? fd with
  | none => exact ⟨rfl, rfl⟩
  | some f => exact ⟨rfl, rfl⟩

/-- What is read of a file is an unchanged page of the number that was asked for. Reading only counts. -/
theorem ends_readPage_any (fd : Descriptor) (p : PageId) (s : FileStore) :
    Ends (readPage fd p) s (fun page s' => page.id = p ∧ page.dirtiedBy = none ∧ s.Alike s')
      fun cause s' => cause.isPageFault = true ∧ s.Alike s' := by
  unfold readPage readBlock
  simp only [ends_bind, ends_get, ends_modify, ends_pure, ends_liftExcept]
  apply (ends_file_any fd s).mono
  · rintro f s ⟨hf, rfl⟩
    refine ⟨fun block hblock => ?_, fun cause hcause => ⟨HeapFile.readBlock_fault hcause, .refl s⟩⟩
    have halike : s.Alike (s.setFile fd f.countRead) := FileStore.alike_setFile hf rfl
    apply (ends_file_any fd _).mono
    · rintro f' - ⟨-, rfl⟩
      refine ⟨fun page hpage => ?_, fun cause hcause => ⟨HeapPage.decode_fault hcause, halike⟩⟩
      obtain ⟨-, hid, -, hclean⟩ := HeapPage.decode_wellFormed hpage
      exact ⟨hid, hclean, halike⟩
    · exact fun cause _ h => ⟨h.1, h.2 ▸ halike⟩
  · exact fun cause _ h => ⟨h.1, h.2 ▸ .refl s⟩

/-- A write that fails changes nothing. -/
theorem ends_writeBlock_any (fd : Descriptor) (p : PageId) (b : Block) (s : FileStore) :
    Ends (writeBlock fd p b) s
      (fun _ s' => ∃ f, s.file? fd = some f ∧ f.Has p ∧ s' = s.put fd f p b)
      fun cause s' => cause.isPageFault = true ∧ s' = s := by
  have hfile := ends_file_any fd s
  cases hf : s.file? fd with
  | none =>
    unfold writeBlock
    rw [ends_bind]
    refine hfile.mono (fun f _ h => ?_) fun _ _ h => h
    rw [hf] at h
    simp at h
  | some f =>
    by_cases hp : f.Has p
    · rw [ends_writeBlock hf hp]
      exact ⟨f, rfl, hp, rfl⟩
    · rw [ends_writeBlock_of_not_has hf hp]
      exact ⟨rfl, rfl⟩

end FileOp

/-! ### Pages of the engine -/

namespace Op

theorem ends_page_any (h : Handle) (e : Engine) :
    Ends (page h) e (fun page e' => e.cache.page? h = some page ∧ e' = e)
      fun cause e' => cause.isPageFault = true ∧ e' = e := by
  unfold page
  rw [ends_bind, ends_get]
  cases e.cache.page? h with
  | none => exact ⟨rfl, rfl⟩
  | some page => exact ⟨rfl, rfl⟩

theorem ends_tableFile_any (t : TableId) (e : Engine) :
    Ends (tableFile t) e (fun fd e' => e.catalog.file t = .ok fd ∧ e' = e)
      fun cause e' => cause.isPageFault = true ∧ e' = e := by
  cases ht : e.catalog.byId[t]? with
  | none =>
    rw [ends_tableFile_of_none ht]
    exact ⟨rfl, rfl⟩
  | some entry =>
    rw [ends_tableFile ht]
    refine ⟨?_, rfl⟩
    rw [Catalog.file, Catalog.entry, ht]
    rfl

end Op

theorem Engine.stored_fault {e : Engine} (h : e.stored p = .error cause) : cause.isPageFault = true := by
  have hread : Ends (do Op.onFiles (FileOp.readPage (← Op.tableFile p.table) p)) e (fun _ _ => True)
      fun cause _ => cause.isPageFault = true := by
    simp only [ends_bind, Op.ends_onFiles]
    apply (Op.ends_tableFile_any p.table e).mono
    · exact fun fd e' _ => (FileOp.ends_readPage_any fd p e'.store).mono (fun _ _ _ => trivial)
        fun _ _ hfault => hfault.1
    · exact fun cause _ hfault => hfault.1
  exact hread.of_error h

theorem Engine.stored_clean {e : Engine} {page : HeapPage} (h : e.stored p = .ok page) :
    page.id = p ∧ page.dirtiedBy = none := by
  rw [Engine.stored_def] at h
  split at h
  · next fd _ =>
    have hread : Ends (FileOp.readPage fd p) e.store (fun page _ => page.id = p ∧ page.dirtiedBy = none)
        fun _ _ => True :=
      (FileOp.ends_readPage_any fd p e.store).mono (fun _ _ hread => ⟨hread.1, hread.2.1⟩) fun _ _ _ => trivial
    exact hread.of_ok h
  · simp at h

end HeapStore
