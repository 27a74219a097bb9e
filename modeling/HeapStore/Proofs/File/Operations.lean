import HeapStore.File.Store
import HeapStore.Proofs.Engine.Ends
import HeapStore.Proofs.File.Blocks

/-!
# Operations on open files

A file is opened unless there is a cause to refuse it, and then nothing was changed (`HeapFile.openAt_cases`).

Reading and writing change one open file of a store, and what is counted of it. Reading only counts
(`FileStore.Alike`, `FileOp.ends_readPage`); on a page that the file has, writing always succeeds
(`FileOp.ends_writeBlock`), and so does appending (`FileOp.ends_allocate`).
-/

namespace HeapStore

namespace HeapFile

variable {d : Disk} {path : String} {table : TableId} {s : Schema} {file : List String} {cause : StorageError}

/-- The file as it is when it has just been opened. -/
def found (d : Disk) (file : List String) (table : TableId) (s : Schema) : HeapFile :=
  ⟨table, s, file, (d.contents file).length / pageSize % pageNumbers, 0, 0⟩

theorem onDisk_found (hs : s.checkStorable = .ok ()) : (found d file table s).OnDisk d :=
  ⟨hs, Nat.le_trans (Nat.mul_le_mul_right _ (Nat.mod_le _ _)) (Nat.div_mul_le_self _ _)⟩

theorem openAt_of_not_storable (h : s.checkStorable = .error cause) : openAt d path table s = .error cause := by
  rw [openAt, h]
  rfl

theorem openAt_of_no_target {failure : IoFailure} (hs : s.checkStorable = .ok ())
    (h : d.target path = .error failure) : openAt d path table s = .error (.io failure) := by
  rw [openAt, hs, h]
  rfl

theorem openAt_of_target (hs : s.checkStorable = .ok ()) (h : d.target path = .ok file) :
    openAt d path table s =
      if (d.contents file).length % pageSize ≠ 0 then .error (.partialPage (d.contents file).length)
      else .ok (found d file table s, d.create file) := by
  rw [openAt, hs, h]
  rfl

/-- The causes for which the file at a path cannot be opened for rows of a schema. -/
inductive Refuses (d : Disk) (path : String) (s : Schema) : StorageError → Prop
  | notStorable {cause : StorageError} (h : s.checkStorable = .error cause) : Refuses d path s cause
  | noFile {failure : IoFailure} (h : d.target path = .error failure) : Refuses d path s (.io failure)
  | partialPage {file : List String} (h : d.target path = .ok file)
      (hlength : (d.contents file).length % pageSize ≠ 0) : Refuses d path s (.partialPage (d.contents file).length)

theorem openAt_cases (d : Disk) (path : String) (table : TableId) (s : Schema) :
    (∃ file, d.target path = .ok file ∧ (∀ cause, ¬ Refuses d path s cause) ∧
        openAt d path table s = .ok (found d file table s, d.create file)) ∨
      ∃ cause, Refuses d path s cause ∧ openAt d path table s = .error cause := by
  cases hs : s.checkStorable with
  | error cause => exact .inr ⟨cause, .notStorable hs, openAt_of_not_storable hs⟩
  | ok =>
    cases htarget : d.target path with
    | error failure => exact .inr ⟨.io failure, .noFile htarget, openAt_of_no_target hs htarget⟩
    | ok file =>
      rw [openAt_of_target hs htarget]
      by_cases hlength : (d.contents file).length % pageSize = 0
      · refine .inl ⟨file, rfl, fun cause hrefuses => ?_, if_neg (not_not_intro hlength)⟩
        cases hrefuses with
        | notStorable h => simp [hs] at h
        | noFile h => simp [htarget] at h
        | partialPage h hpartial =>
          obtain rfl := Except.ok.inj (htarget.symm.trans h)
          exact hpartial hlength
      · exact .inr ⟨_, .partialPage htarget hlength, if_pos hlength⟩

end HeapFile

namespace FileStore

/-- The same files with the same contents, whatever was counted. -/
structure Alike (s s' : FileStore) : Prop where
  disk : s'.disk = s.disk
  files : ∀ fd, (s'.file? fd).map HeapFile.uncounted = (s.file? fd).map HeapFile.uncounted

variable {s : FileStore} {fd : Descriptor} {f f' : HeapFile} {p : PageId}

theorem Alike.refl (s : FileStore) : s.Alike s := ⟨rfl, fun _ => rfl⟩

theorem file?_setFile (hf : s.file? fd = some f) (f' : HeapFile) (other : Descriptor) :
    (s.setFile fd f').file? other = if other = fd then some f' else s.file? other := by
  unfold setFile file? at *
  have hfd : fd < s.opened.length := (List.getElem?_eq_some_iff.1 hf).1
  rw [List.getElem?_set]
  by_cases h : fd = other
  · simp [h, h ▸ hfd]
  · simp [h, Ne.symm h]

theorem alike_setFile (hf : s.file? fd = some f) (h : f'.uncounted = f.uncounted) :
    s.Alike (s.setFile fd f') := by
  refine ⟨rfl, ?_⟩
  intro other
  rw [file?_setFile hf]
  split
  · next heq => rw [heq, hf, Option.map_some, Option.map_some, h]
  · rfl

/-- The store after a page of an open file was overwritten. -/
def put (s : FileStore) (fd : Descriptor) (f : HeapFile) (p : PageId) (b : Block) : FileStore :=
  { s.setFile fd f.countWrite with disk := s.disk.write f.path (p.number * pageSize) b.bytes }

theorem file?_put (hf : s.file? fd = some f) (p : PageId) (b : Block) (other : Descriptor) :
    (s.put fd f p b).file? other = if other = fd then some f.countWrite else s.file? other :=
  file?_setFile hf f.countWrite other

end FileStore

namespace FileOp

variable {s : FileStore} {fd : Descriptor} {f : HeapFile} {p : PageId}

theorem ends_file (hf : s.file? fd = some f) {ok : HeapFile → FileStore → Prop}
    {err : StorageError → FileStore → Prop} : Ends (file fd) s ok err ↔ ok f s := by
  unfold file
  rw [ends_bind, ends_get, hf]
  exact Iff.rfl

/-- Reading a page gives what the file holds, and only counts. -/
theorem ends_readPage (hf : s.file? fd = some f) (p : PageId) :
    Ends (readPage fd p) s (fun page s' => f.load s.disk p = .ok page ∧ s.Alike s')
      fun cause s' => f.load s.disk p = .error cause ∧ s.Alike s' := by
  unfold readPage readBlock
  simp only [ends_bind, ends_get, ends_modify, ends_pure, ends_file hf, ends_liftExcept]
  have hcount : (s.setFile fd f.countRead).file? fd = some f.countRead := by
    rw [FileStore.file?_setFile hf, if_pos rfl]
  have halike : s.Alike (s.setFile fd f.countRead) := FileStore.alike_setFile hf rfl
  refine ⟨?_, fun cause hcause => ⟨?_, FileStore.Alike.refl s⟩⟩
  · intro block hblock
    have hload : f.load s.disk p = HeapPage.decode p f.schema block.bytes := by
      rw [HeapFile.load, hblock]
      rfl
    simp only [ends_file hcount, hload]
    exact ⟨fun page hpage => ⟨hpage, halike⟩, fun cause hcause => ⟨hcause, halike⟩⟩
  · rw [HeapFile.load, hcause]
    rfl

theorem ends_readBlock (hf : s.file? fd = some f) {b : Block} (hb : f.readBlock s.disk p = .ok b)
    {ok : Block → FileStore → Prop} {err : StorageError → FileStore → Prop} :
    Ends (readBlock fd p) s ok err ↔ ok b (s.setFile fd f.countRead) := by
  unfold readBlock
  simp only [ends_bind, ends_get, ends_modify, ends_pure, ends_file hf, hb]
  exact Iff.rfl

/-- What cannot be read is not counted either. -/
theorem ends_readBlock_of_error (hf : s.file? fd = some f) {cause : StorageError}
    (hcause : f.readBlock s.disk p = .error cause) {ok : Block → FileStore → Prop}
    {err : StorageError → FileStore → Prop} : Ends (readBlock fd p) s ok err ↔ err cause s := by
  unfold readBlock
  simp only [ends_bind, ends_get, ends_file hf, hcause]
  exact Iff.rfl

/-- Writing to a page of the file always succeeds. -/
theorem ends_writeBlock (hf : s.file? fd = some f) (hp : f.Has p) (b : Block)
    {ok : Unit → FileStore → Prop} {err : StorageError → FileStore → Prop} :
    Ends (writeBlock fd p b) s ok err ↔ ok () (s.put fd f p b) := by
  unfold writeBlock
  simp only [ends_bind, ends_get, ends_modify, ends_file hf, HeapFile.writeBlock_of_has hp]
  exact Iff.rfl

theorem ends_writeBlock_of_not_has (hf : s.file? fd = some f) (hp : ¬ f.Has p) (b : Block)
    {ok : Unit → FileStore → Prop} {err : StorageError → FileStore → Prop} :
    Ends (writeBlock fd p b) s ok err ↔ err (.pageNotFound p) s := by
  have hwrite : f.writeBlock s.disk p b = .error (.pageNotFound p) := by
    rw [HeapFile.writeBlock, HeapFile.offset?_of_not_has hp]
    rfl
  unfold writeBlock
  simp only [ends_bind, ends_get, ends_file hf, hwrite]
  exact Iff.rfl

theorem ends_allocate (hf : s.file? fd = some f) {ok : PageId → FileStore → Prop}
    {err : StorageError → FileStore → Prop} :
    Ends (allocate fd) s ok err ↔
      ok f.nextPage { s.setFile fd (f.append s.disk).1 with disk := (f.append s.disk).2 } := by
  unfold allocate
  simp only [ends_bind, ends_modify, ends_pure, ends_file hf]

end FileOp

end HeapStore
