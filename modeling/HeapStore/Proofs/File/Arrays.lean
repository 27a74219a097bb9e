import HeapStore.Proofs.File.Operations
import HeapStore.Proofs.Page.Changes
import HeapStore.Proofs.Page.Grammar
import HeapStore.Proofs.Page.Views

/-!
# A heap file is an array of pages

A `PageArray` is a list of blocks: it grows by a block of zeros at its end, and a block is replaced or looked up
by its number. What is asked of an open heap file (`FileCall`) can be asked of an array. A heap file stands for
an array if its bytes are the array's blocks, one after the other, with nothing behind them, and if the file
counts as many pages, reads and writes as the array does (`OpenFile.Holds`).

Each call is answered by the file as by the array, and leaves the one standing for the other (`Holds.serve`),
so that all calls are, one after the other (`Holds.run`). In the array a block is what was written to it last
(`PageArray.getElem?_blocks_of_written`), or what it was at first (`PageArray.getElem?_blocks_run`). The bytes of
a page are read as a page with the same tuples (`HeapPage.Reached.read_back`). All this is put together in
`OpenFile.heap_file_is_page_array`.
-/

namespace HeapStore

/-! ### Blocks one after the other -/

namespace Block

def join (blocks : List Block) : List UInt8 := blocks.flatMap (·.bytes)

/-- The whole blocks that bytes consist of. -/
def split (bytes : List UInt8) : List Block :=
  (List.range (bytes.length / pageSize)).map fun n => .padded (bytes.drop (n * pageSize))

variable {blocks : List Block} {bytes : List UInt8} {n : Nat}

theorem join_append (blocks blocks' : List Block) : join (blocks ++ blocks') = join blocks ++ join blocks' :=
  List.flatMap_append

theorem join_singleton (b : Block) : join [b] = b.bytes := List.append_nil b.bytes

theorem length_join (blocks : List Block) : (join blocks).length = blocks.length * pageSize := by
  induction blocks with
  | nil => rw [List.length_nil, Nat.zero_mul]; rfl
  | cons b blocks ih =>
    rw [join, List.flatMap_cons, ← join, List.length_append, ih, b.length_bytes, List.length_cons, Nat.succ_mul,
      Nat.add_comm]

theorem length_split (bytes : List UInt8) : (split bytes).length = bytes.length / pageSize := by
  rw [split, List.length_map, List.length_range]

theorem join_split (h : bytes.length % pageSize = 0) : join (split bytes) = bytes := by
  have hlength : bytes.length / pageSize * pageSize = bytes.length := by
    have hdiv := Nat.div_add_mod bytes.length pageSize
    rw [h, Nat.add_zero, Nat.mul_comm] at hdiv
    exact hdiv
  have hbytes : ∀ n ∈ List.range (bytes.length / pageSize),
      (padded (bytes.drop (n * pageSize))).bytes = (bytes.drop (n * pageSize)).take pageSize := by
    intro n hn
    have hend : (n + 1) * pageSize ≤ bytes.length / pageSize * pageSize :=
      Nat.mul_le_mul_right _ (List.mem_range.1 hn)
    rw [hlength, Nat.succ_mul] at hend
    show (bytes.drop (n * pageSize) ++ List.replicate pageSize 0).take pageSize = _
    rw [List.take_append_of_le_length (by rw [List.length_drop]; omega)]
  rw [join, split, List.flatMap_map, List.flatMap_congr hbytes, HeapPage.flatMap_take_drop, hlength,
    List.take_length]

theorem take_drop_join (hn : n < blocks.length) :
    ((join blocks).drop (n * pageSize)).take pageSize = blocks[n].bytes := by
  have hread : ((join blocks ++ []).drop (n * pageSize)).take pageSize = blocks[n].bytes :=
    HeapPage.take_drop_flatMap (fun b _ => b.length_bytes) [] hn
  rwa [List.append_nil] at hread

theorem split_at (hn : n < blocks.length) : blocks = blocks.take n ++ blocks[n] :: blocks.drop (n + 1) := by
  rw [List.getElem_cons_drop, List.take_append_drop]

theorem overwrite_join (hn : n < blocks.length) (b : Block) :
    Disk.overwrite (join blocks) (n * pageSize) b.bytes = join (blocks.set n b) := by
  have hfront : (join (blocks.take n)).length = n * pageSize := by
    rw [length_join, List.length_take, Nat.min_eq_left (Nat.le_of_lt hn)]
  have hsplit : join blocks = join (blocks.take n) ++ (blocks[n].bytes ++ join (blocks.drop (n + 1))) := by
    conv_lhs => rw [split_at hn, join_append]
    rfl
  have hset : join (blocks.set n b) = join (blocks.take n) ++ (b.bytes ++ join (blocks.drop (n + 1))) := by
    rw [List.set_eq_take_append_cons_drop, if_pos hn, join_append]
    rfl
  have hinside : n * pageSize ≤ (join blocks).length := by
    rw [length_join]
    exact Nat.mul_le_mul_right _ (Nat.le_of_lt hn)
  have hrest : (join blocks).drop (n * pageSize + b.bytes.length) = join (blocks.drop (n + 1)) := by
    rw [b.length_bytes, ← List.drop_drop, hsplit, List.drop_left' hfront,
      List.drop_left' (blocks[n]).length_bytes]
  rw [Disk.overwrite_eq hinside, hrest, hset, hsplit, List.take_left' hfront]

theorem overwrite_join_end (b : Block) :
    Disk.overwrite (join blocks) (blocks.length * pageSize) b.bytes = join (blocks ++ [b]) := by
  have hend : (join blocks).length = blocks.length * pageSize := length_join blocks
  rw [Disk.overwrite_eq (Nat.le_of_eq hend.symm), ← hend, List.take_length,
    List.drop_of_length_le (Nat.le_add_right _ _), List.append_nil, join_append, join_singleton]

end Block

/-! ### What is asked -/

inductive FileCall where
  | allocate
  | writeBlock (p : PageId) (b : Block)
  | writePage (page : HeapPage)
  | readBlock (p : PageId)
  | readPage (p : PageId)
  /-- The file is closed, and opened again for a table. -/
  | reopen (table : TableId) (schema : Schema)

inductive FileReply where
  | allocated (p : PageId)
  | written
  | block (b : Block)
  | page (page : HeapPage)
  | reopened
  | failed (cause : StorageError)

namespace FileCall

def isAllocate : FileCall → Bool
  | allocate => true
  | _ => false

/-- The page that is to be read or written. -/
def page? : FileCall → Option PageId
  | writeBlock p _ | readBlock p | readPage p => some p
  | writePage page => some page.id
  | allocate | reopen _ _ => none

/-- What is to be written, and to which page. -/
def written? : FileCall → Option (PageId × Block)
  | writeBlock p b => some (p, b)
  | writePage page => some (page.id, page.block)
  | allocate | readBlock _ | readPage _ | reopen _ _ => none

/-- Is a page of this number to be written? -/
def Writes (c : FileCall) (n : Nat) : Prop := c.written?.map (·.1.number) = some n

instance (c : FileCall) (n : Nat) : Decidable (c.Writes n) := inferInstanceAs (Decidable (_ = _))

end FileCall

/-! ### Arrays of pages -/

structure PageArray where
  table : TableId
  schema : Schema
  blocks : List Block
  /-- How many blocks were read since the last opening. -/
  reads : Nat
  /-- How many blocks were written since the last opening. -/
  writes : Nat

namespace PageArray

/-- The block of a page. -/
def block? (a : PageArray) (p : PageId) : Option Block := if p.table = a.table then a.blocks[p.number]? else none

/-- Replaces the block of a page. -/
def put (a : PageArray) (p : PageId) (b : Block) : FileReply × PageArray :=
  match a.block? p with
  | some _ => (.written, { a with blocks := a.blocks.set p.number b, writes := a.writes + 1 })
  | none => (.failed (.pageNotFound p), a)

/-- Looks a page's block up and answers with what it is read as. -/
def look (a : PageArray) (p : PageId) (answer : Block → FileReply) : FileReply × PageArray :=
  match a.block? p with
  | some b => (answer b, { a with reads := a.reads + 1 })
  | none => (.failed (.pageNotFound p), a)

/-- The answer to who asked for a page and not for its bytes. -/
def asPage (p : PageId) (s : Schema) (b : Block) : FileReply :=
  match HeapPage.decode p s b.bytes with
  | .ok page => .page page
  | .error cause => .failed cause

def serve (a : PageArray) : FileCall → FileReply × PageArray
  | .allocate =>
    (.allocated ⟨a.table, a.blocks.length⟩, { a with blocks := a.blocks ++ [.zero], writes := a.writes + 1 })
  | .writeBlock p b => a.put p b
  | .writePage page => a.put page.id page.block
  | .readBlock p => a.look p .block
  | .readPage p => a.look p (asPage p a.schema)
  | .reopen table schema =>
    match schema.checkStorable with
    | .ok () => (.reopened, ⟨table, schema, a.blocks, 0, 0⟩)
    | .error cause => (.failed cause, a)

def run : List FileCall → PageArray → List FileReply × PageArray
  | [], a => ([], a)
  | c :: calls, a => ((a.serve c).1 :: (run calls (a.serve c).2).1, (run calls (a.serve c).2).2)

/-- The array of the blocks that a file consists of. -/
def ofBytes (table : TableId) (schema : Schema) (bytes : List UInt8) : PageArray :=
  ⟨table, schema, Block.split bytes, 0, 0⟩

variable {a : PageArray} {p : PageId} {b : Block} {n : Nat}

theorem block?_eq_some_iff : a.block? p = some b ↔ p.table = a.table ∧ a.blocks[p.number]? = some b := by
  unfold block?
  split
  · next htable => simp [htable]
  · next htable => simp [htable]

theorem length_blocks_put (a : PageArray) (p : PageId) (b : Block) :
    (a.put p b).2.blocks.length = a.blocks.length := by
  unfold put
  split
  · exact List.length_set
  · rfl

theorem blocks_look (a : PageArray) (p : PageId) (answer : Block → FileReply) :
    (a.look p answer).2.blocks = a.blocks := by
  unfold look
  split <;> rfl

/-- Only an allocation makes an array longer. -/
theorem length_blocks_serve (a : PageArray) (c : FileCall) :
    (a.serve c).2.blocks.length = a.blocks.length + [c].countP FileCall.isAllocate := by
  cases c with
  | allocate => exact List.length_append
  | writeBlock p b => exact a.length_blocks_put p b
  | writePage page => exact a.length_blocks_put page.id page.block
  | readBlock p => exact congrArg List.length (a.blocks_look p _)
  | readPage p => exact congrArg List.length (a.blocks_look p _)
  | reopen table schema =>
    simp only [serve]
    split <;> rfl

/-! ### The last block written -/

theorem getElem?_blocks_put (h : p.number ≠ n) : (a.put p b).2.blocks[n]? = a.blocks[n]? := by
  unfold put
  split
  · exact List.getElem?_set_ne h
  · rfl

/-- A call that writes no page of the number changes no block of it. A block that it adds is zero. -/
theorem getElem?_blocks_serve {c : FileCall} (hc : ¬ c.Writes n) (hn : n < (a.serve c).2.blocks.length) :
    (a.serve c).2.blocks[n]? = some (a.blocks[n]?.getD .zero) := by
  have hold : ∀ {blocks : List Block}, blocks[n]? = a.blocks[n]? → n < blocks.length →
      blocks[n]? = some (a.blocks[n]?.getD .zero) := by
    intro blocks hsame hlt
    rw [← hsame, List.getElem?_eq_getElem hlt, Option.getD_some]
  cases c with
  | allocate =>
    have hlength : n < a.blocks.length + 1 := by simpa [serve] using hn
    show (a.blocks ++ [Block.zero])[n]? = _
    by_cases hlt : n < a.blocks.length
    · rw [List.getElem?_append_left hlt, List.getElem?_eq_getElem hlt, Option.getD_some]
    · obtain rfl : n = a.blocks.length := by omega
      rw [List.getElem?_concat_length, List.getElem?_eq_none (Nat.le_refl _), Option.getD_none]
  | writeBlock p b => exact hold (getElem?_blocks_put fun hp => hc (congrArg some hp)) hn
  | writePage page => exact hold (getElem?_blocks_put fun hp => hc (congrArg some hp)) hn
  | readBlock p => exact hold (by rw [serve, blocks_look]) hn
  | readPage p => exact hold (by rw [serve, blocks_look]) hn
  | reopen table schema =>
    refine hold ?_ hn
    unfold serve
    dsimp only
    split <;> rfl

theorem length_blocks_le_run (calls : List FileCall) (a : PageArray) :
    a.blocks.length ≤ (a.run calls).2.blocks.length := by
  induction calls generalizing a with
  | nil => exact Nat.le_refl _
  | cons c calls ih =>
    have hserve := a.length_blocks_serve c
    have hrun := ih (a.serve c).2
    show _ ≤ (run calls (a.serve c).2).2.blocks.length
    omega

/-- What no call writes stays, or is zero if it was added. -/
theorem getElem?_blocks_run {calls : List FileCall} (hcalls : ∀ c ∈ calls, ¬ c.Writes n)
    (hn : n < (a.run calls).2.blocks.length) :
    (a.run calls).2.blocks[n]? = some (a.blocks[n]?.getD .zero) := by
  induction calls generalizing a with
  | nil => rw [run, List.getElem?_eq_getElem (show n < a.blocks.length from hn), Option.getD_some]
  | cons c calls ih =>
    have hrest := ih (fun c' hc' => hcalls c' (List.mem_cons_of_mem _ hc')) hn
    show (run calls (a.serve c).2).2.blocks[n]? = _
    rw [hrest]
    by_cases hlt : n < (a.serve c).2.blocks.length
    · rw [getElem?_blocks_serve (hcalls c List.mem_cons_self) hlt, Option.getD_some]
    · have hlength := a.length_blocks_serve c
      rw [List.getElem?_eq_none (Nat.le_of_not_lt hlt), List.getElem?_eq_none (by omega)]

theorem serve_of_written {c : FileCall} (hc : c.written? = some (p, b)) : a.serve c = a.put p b := by
  cases c with
  | writeBlock p' b' =>
    obtain ⟨rfl, rfl⟩ := Prod.mk.inj (Option.some.inj hc)
    rfl
  | writePage page =>
    obtain ⟨rfl, rfl⟩ := Prod.mk.inj (Option.some.inj hc)
    rfl
  | allocate | readBlock _ | readPage _ | reopen _ _ => simp [FileCall.written?] at hc

theorem run_append (earlier later : List FileCall) (a : PageArray) :
    (a.run (earlier ++ later)).2 = ((a.run earlier).2.run later).2 := by
  induction earlier generalizing a with
  | nil => rfl
  | cons c earlier ih => exact ih (a.serve c).2

theorem getElem?_blocks_of_written {earlier later : List FileCall} {c : FileCall}
    (hc : c.written? = some (p, b)) (hp : (a.run earlier).2.block? p ≠ none)
    (hlater : ∀ c ∈ later, ¬ c.Writes p.number) :
    (a.run (earlier ++ c :: later)).2.blocks[p.number]? = some b := by
  have hput : ((a.run earlier).2.serve c).2.blocks[p.number]? = some b := by
    obtain ⟨old, hold⟩ := Option.ne_none_iff_exists'.1 hp
    have hnumber := (List.getElem?_eq_some_iff.1 (block?_eq_some_iff.1 hold).2).1
    rw [serve_of_written hc, put, hold]
    exact List.getElem?_set_self hnumber
  have hlt := (List.getElem?_eq_some_iff.1 hput).1
  have hend := length_blocks_le_run later ((a.run earlier).2.serve c).2
  rw [run_append]
  show (run later ((a.run earlier).2.serve c).2).2.blocks[p.number]? = _
  rw [getElem?_blocks_run hlater (by omega), hput, Option.getD_some]

end PageArray

/-! ### Open files -/

/-- A file store and the one descriptor through which a file of it is used. -/
structure OpenFile where
  store : FileStore
  fd : Descriptor

namespace OpenFile

def openAt (store : FileStore) (path : String) (table : TableId) (schema : Schema) :
    Except StorageError OpenFile :=
  (store.openFile path table schema).map fun (fd, store) => ⟨store, fd⟩

/-- Carries out an operation on the file. -/
def ask {α : Type} (s : OpenFile) (op : Descriptor → FileOp α) (answer : α → FileReply) :
    FileReply × OpenFile :=
  match (op s.fd).run.run s.store with
  | (.ok a, store) => (answer a, { s with store })
  | (.error cause, store) => (.failed cause, { s with store })

def serve (path : String) (s : OpenFile) : FileCall → FileReply × OpenFile
  | .allocate => s.ask FileOp.allocate .allocated
  | .writeBlock p b => s.ask (FileOp.writeBlock · p b) fun _ => .written
  | .writePage page => s.ask (FileOp.writePage · page) fun _ => .written
  | .readBlock p => s.ask (FileOp.readBlock · p) .block
  | .readPage p => s.ask (FileOp.readPage · p) .page
  | .reopen table schema =>
    match openAt s.store path table schema with
    | .ok s => (.reopened, s)
    | .error cause => (.failed cause, s)

def run (path : String) : List FileCall → OpenFile → List FileReply × OpenFile
  | [], s => ([], s)
  | c :: calls, s =>
    ((s.serve path c).1 :: (run path calls (s.serve path c).2).1, (run path calls (s.serve path c).2).2)

/-- The file at the path stands for the array, and all other files are as they were on the disk `d`. -/
structure Holds (d : Disk) (path : String) (file : List String) (s : OpenFile) (a : PageArray) : Prop where
  opened : s.store.file? s.fd = some ⟨a.table, a.schema, file, a.blocks.length, a.reads, a.writes⟩
  bytes : s.store.disk.contents file = Block.join a.blocks
  storable : a.schema.checkStorable = .ok ()
  folders : s.store.disk.folders = d.folders
  others : ∀ other, other ≠ file → s.store.disk.contents? other = d.contents? other

/-- The file answers as the array does, and stands for what the array becomes. -/
def Follows (d : Disk) (path : String) (file : List String) (x : FileReply × OpenFile)
    (y : FileReply × PageArray) : Prop :=
  x.1 = y.1 ∧ x.2.Holds d path file y.2

variable {d : Disk} {path : String} {file : List String} {s : OpenFile} {a : PageArray} {p : PageId} {b : Block}

theorem ask_of_ends {α : Type} {op : Descriptor → FileOp α} {answer : α → FileReply}
    {P : FileReply × OpenFile → Prop}
    (h : Ends (op s.fd) s.store (fun a store => P (answer a, { s with store }))
      fun cause store => P (.failed cause, { s with store })) : P (s.ask op answer) := by
  unfold ask
  unfold Ends at h
  split at h
  · next heq => rw [heq]; exact h
  · next heq => rw [heq]; exact h

/-- The open file that stands for an array. -/
abbrev heapFile (a : PageArray) (file : List String) : HeapFile :=
  ⟨a.table, a.schema, file, a.blocks.length, a.reads, a.writes⟩

theorem has_iff : (heapFile a file).Has p ↔ ∃ b, a.block? p = some b := by
  simp only [PageArray.block?_eq_some_iff]
  constructor
  · rintro ⟨htable, hnumber⟩
    exact ⟨a.blocks[p.number], htable, List.getElem?_eq_getElem hnumber⟩
  · rintro ⟨b, htable, hb⟩
    exact ⟨htable, (List.getElem?_eq_some_iff.1 hb).1⟩

theorem not_has (h : a.block? p = none) : ¬ (heapFile a file).Has p := fun hp => by
  obtain ⟨b, hb⟩ := has_iff.1 hp
  rw [h] at hb
  simp at hb

/-! ### Reading -/

theorem Holds.readBlock_eq (h : s.Holds d path file a) (hb : a.block? p = some b) :
    (heapFile a file).readBlock s.store.disk p = .ok b := by
  obtain ⟨-, hb'⟩ := PageArray.block?_eq_some_iff.1 hb
  obtain ⟨hnumber, hget⟩ := List.getElem?_eq_some_iff.1 hb'
  have hread : s.store.disk.read file (p.number * pageSize) pageSize = b.bytes := by
    rw [Disk.read, h.bytes, Block.take_drop_join hnumber, hget]
  have hblock : Block.ofBytes? b.bytes = some b := dif_pos b.length_bytes
  unfold HeapFile.readBlock
  rw [HeapFile.offset?_of_has (has_iff.2 ⟨b, hb⟩)]
  simp only [bind, Except.bind, hread, hblock]

theorem readBlock_of_none (h : a.block? p = none) (disk : Disk) :
    (heapFile a file).readBlock disk p = .error (.pageNotFound p) := by
  unfold HeapFile.readBlock
  rw [HeapFile.offset?_of_not_has (not_has h)]
  rfl

theorem Holds.countRead (h : s.Holds d path file a) :
    ({ s with store := s.store.setFile s.fd (heapFile a file).countRead } : OpenFile).Holds d path file
      { a with reads := a.reads + 1 } := by
  refine ⟨?_, h.bytes, h.storable, h.folders, h.others⟩
  show (s.store.setFile s.fd _).file? s.fd = _
  rw [FileStore.file?_setFile h.opened, if_pos rfl]
  rfl

theorem Holds.readBlock (h : s.Holds d path file a) (p : PageId) :
    Follows d path file (s.ask (FileOp.readBlock · p) .block) (a.look p .block) := by
  apply ask_of_ends (P := fun x => Follows d path file x (a.look p .block))
  unfold PageArray.look
  cases hb : a.block? p with
  | some b =>
    rw [FileOp.ends_readBlock h.opened (h.readBlock_eq hb)]
    exact ⟨rfl, h.countRead⟩
  | none =>
    rw [FileOp.ends_readBlock_of_error h.opened (readBlock_of_none hb _)]
    exact ⟨rfl, h⟩

theorem Holds.readPage (h : s.Holds d path file a) (p : PageId) :
    Follows d path file (s.ask (FileOp.readPage · p) .page) (a.look p (PageArray.asPage p a.schema)) := by
  apply ask_of_ends (P := fun x => Follows d path file x (a.look p (PageArray.asPage p a.schema)))
  unfold FileOp.readPage PageArray.look
  rw [ends_bind]
  cases hb : a.block? p with
  | some b =>
    rw [FileOp.ends_readBlock h.opened (h.readBlock_eq hb), ends_bind, FileOp.ends_file h.countRead.opened,
      ends_liftExcept]
    refine ⟨fun page hpage => ⟨?_, h.countRead⟩, fun cause hcause => ⟨?_, h.countRead⟩⟩
    · show FileReply.page page = PageArray.asPage p a.schema b
      rw [PageArray.asPage, hpage]
    · show FileReply.failed cause = PageArray.asPage p a.schema b
      rw [PageArray.asPage, hcause]
  | none =>
    rw [FileOp.ends_readBlock_of_error h.opened (readBlock_of_none hb _)]
    exact ⟨rfl, h⟩

/-! ### Writing -/

/-- Writing at an offset of the file, where this makes the array's blocks of its bytes. -/
theorem Holds.write (h : s.Holds d path file a) {offset : Nat} {blocks : List Block} {f : HeapFile}
    (hbytes : Disk.overwrite (Block.join a.blocks) offset b.bytes = Block.join blocks)
    (hf : f = ⟨a.table, a.schema, file, blocks.length, a.reads, a.writes + 1⟩) :
    ({ s with store := { s.store.setFile s.fd f with
        disk := s.store.disk.write file offset b.bytes } } : OpenFile).Holds d path file
      { a with blocks, writes := a.writes + 1 } := by
  refine ⟨?_, ?_, h.storable, h.folders, fun other hother => ?_⟩
  · show (s.store.setFile s.fd f).file? s.fd = _
    rw [FileStore.file?_setFile h.opened, if_pos rfl, hf]
  · show (s.store.disk.write file offset b.bytes).contents file = _
    rw [Disk.contents_write_self, h.bytes, hbytes]
  · show (s.store.disk.write file offset b.bytes).contents? other = _
    rw [Disk.contents?_write, if_neg hother, h.others other hother]

theorem Holds.writeBlock (h : s.Holds d path file a) (p : PageId) (b : Block) :
    Follows d path file (s.ask (FileOp.writeBlock · p b) fun _ => .written) (a.put p b) := by
  apply ask_of_ends (P := fun x => Follows d path file x (a.put p b))
  unfold PageArray.put
  cases hb : a.block? p with
  | some old =>
    have hhas : (heapFile a file).Has p := has_iff.2 ⟨old, hb⟩
    rw [FileOp.ends_writeBlock h.opened hhas]
    refine ⟨rfl, h.write (Block.overwrite_join hhas.2 b) ?_⟩
    rw [List.length_set]
    rfl
  | none =>
    rw [FileOp.ends_writeBlock_of_not_has h.opened (not_has hb)]
    exact ⟨rfl, h⟩

theorem Holds.allocate (h : s.Holds d path file a) :
    Follows d path file (s.ask FileOp.allocate .allocated) (a.serve .allocate) := by
  apply ask_of_ends (P := fun x => Follows d path file x (a.serve .allocate))
  rw [FileOp.ends_allocate h.opened]
  refine ⟨rfl, h.write (Block.overwrite_join_end .zero) ?_⟩
  rw [List.length_append]
  rfl

/-! ### Opening -/

/-- A file of whole blocks can be opened, and stands for the array of its blocks. -/
theorem openAt_eq {store : FileStore} (hpath : store.disk.target path = .ok file) {blocks : List Block}
    (hbytes : store.disk.contents file = Block.join blocks) (hsize : blocks.length < HeapFile.pageNumbers)
    (table : TableId) {schema : Schema} (hschema : schema.checkStorable = .ok ()) :
    ∃ s, openAt store path table schema = .ok s ∧ s.Holds store.disk path file ⟨table, schema, blocks, 0, 0⟩ := by
  have hlength : (store.disk.contents file).length = blocks.length * pageSize := by
    rw [hbytes, Block.length_join]
  have hpages : (store.disk.contents file).length / pageSize % HeapFile.pageNumbers = blocks.length := by
    rw [hlength, Nat.mul_div_cancel _ (by decide), Nat.mod_eq_of_lt hsize]
  have hopen : HeapFile.openAt store.disk path table schema =
      .ok (⟨table, schema, file, blocks.length, 0, 0⟩, store.disk.create file) := by
    rw [HeapFile.openAt_of_target hschema hpath, if_neg (by rw [hlength, Nat.mul_mod_left]; exact not_not_intro rfl),
      HeapFile.found, hpages]
  refine ⟨⟨⟨store.disk.create file, store.opened ++ [⟨table, schema, file, blocks.length, 0, 0⟩]⟩,
    store.opened.length⟩, ?_, ?_, ?_, hschema, rfl, fun other hother => ?_⟩
  · unfold openAt FileStore.openFile
    rw [hopen]
    rfl
  · simp [FileStore.file?]
  · exact (Disk.contents_create file file).trans hbytes
  · exact Disk.contents?_create_of_ne hother

theorem openAt_of_not_storable (store : FileStore) (path : String) (table : TableId) {schema : Schema}
    {cause : StorageError} (hschema : schema.checkStorable = .error cause) :
    openAt store path table schema = .error cause := by
  rw [openAt, FileStore.openFile, HeapFile.openAt_of_not_storable hschema]
  rfl

theorem Holds.reopen (h : s.Holds d path file a) (hpath : d.target path = .ok file)
    (hsize : a.blocks.length < HeapFile.pageNumbers) (table : TableId) (schema : Schema) :
    Follows d path file (s.serve path (.reopen table schema)) (a.serve (.reopen table schema)) := by
  unfold serve PageArray.serve
  dsimp only
  cases hschema : schema.checkStorable with
  | ok =>
    obtain ⟨s', hopen, hholds⟩ := openAt_eq ((Disk.target_eq_ok_iff h.folders).2 hpath) h.bytes hsize table hschema
    rw [hopen]
    exact ⟨rfl, hholds.opened, hholds.bytes, hschema, hholds.folders.trans h.folders,
      fun other hother => (hholds.others other hother).trans (h.others other hother)⟩
  | error cause =>
    rw [openAt_of_not_storable s.store path table hschema]
    exact ⟨rfl, h⟩

/-! ### Any number of calls -/

theorem Holds.serve (h : s.Holds d path file a) (hpath : d.target path = .ok file)
    (hsize : a.blocks.length < HeapFile.pageNumbers) (c : FileCall) :
    Follows d path file (s.serve path c) (a.serve c) := by
  cases c with
  | allocate => exact h.allocate
  | writeBlock p b => exact h.writeBlock p b
  | writePage page => exact h.writeBlock page.id page.block
  | readBlock p => exact h.readBlock p
  | readPage p => exact h.readPage p
  | reopen table schema => exact h.reopen hpath hsize table schema

theorem Holds.run (hpath : d.target path = .ok file) (calls : List FileCall) (h : s.Holds d path file a)
    (hsize : a.blocks.length + calls.countP FileCall.isAllocate < HeapFile.pageNumbers) :
    (s.run path calls).1 = (a.run calls).1 ∧ (s.run path calls).2.Holds d path file (a.run calls).2 := by
  induction calls generalizing s a with
  | nil => exact ⟨rfl, h⟩
  | cons c calls ih =>
    have hcount : (c :: calls).countP FileCall.isAllocate =
        [c].countP FileCall.isAllocate + calls.countP FileCall.isAllocate := by
          rw [← List.countP_append, List.singleton_append]
    obtain ⟨hreply, hholds⟩ := h.serve hpath (by omega) c
    obtain ⟨hreplies, hend⟩ := ih hholds (by rw [a.length_blocks_serve c]; omega)
    exact ⟨congrArg₂ List.cons hreply hreplies, hend⟩

theorem Holds.serve_of_not_has (h : s.Holds d path file a) {c : FileCall} (hc : c.page? = some p)
    (hp : ¬ (heapFile a file).Has p) : s.serve path c = (.failed (.pageNotFound p), s) := by
  have hnone : a.block? p = none := by
    cases hb : a.block? p with
    | none => rfl
    | some b => exact absurd (has_iff.2 ⟨b, hb⟩) hp
  have hread : ∀ answer, s.ask (FileOp.readBlock · p) answer = (.failed (.pageNotFound p), s) := fun answer => by
    apply ask_of_ends (P := (· = (FileReply.failed (.pageNotFound p), s)))
    rw [FileOp.ends_readBlock_of_error h.opened (readBlock_of_none hnone _)]
  have hreadPage : ∀ answer, s.ask (FileOp.readPage · p) answer = (.failed (.pageNotFound p), s) := fun answer => by
    apply ask_of_ends (P := (· = (FileReply.failed (.pageNotFound p), s)))
    unfold FileOp.readPage
    rw [ends_bind, FileOp.ends_readBlock_of_error h.opened (readBlock_of_none hnone _)]
  have hwrite : ∀ b answer, s.ask (FileOp.writeBlock · p b) answer = (.failed (.pageNotFound p), s) :=
    fun b answer => by
      apply ask_of_ends (P := (· = (FileReply.failed (.pageNotFound p), s)))
      rw [FileOp.ends_writeBlock_of_not_has h.opened hp]
  cases c with
  | allocate | reopen table schema => simp [FileCall.page?] at hc
  | writeBlock q b =>
    obtain rfl := Option.some.inj hc
    exact hwrite b _
  | writePage page =>
    obtain rfl := Option.some.inj hc
    exact hwrite page.block _
  | readBlock q =>
    obtain rfl := Option.some.inj hc
    exact hread _
  | readPage q =>
    obtain rfl := Option.some.inj hc
    exact hreadPage _

theorem Holds.length_contents (h : s.Holds d path file a) :
    (s.store.disk.contents file).length = a.blocks.length * pageSize := by
  rw [h.bytes, Block.length_join]

theorem Holds.reply_readBlock (h : s.Holds d path file a) (hb : a.block? p = some b) :
    (s.serve path (.readBlock p)).1 = .block b := by
  refine (h.readBlock p).1.trans ?_
  rw [PageArray.look, hb]

theorem Holds.reply_readPage (h : s.Holds d path file a) (hb : a.block? p = some b) {page : HeapPage}
    (hpage : HeapPage.decode p a.schema b.bytes = .ok page) : (s.serve path (.readPage p)).1 = .page page := by
  refine (h.readPage p).1.trans ?_
  rw [PageArray.look, hb]
  show PageArray.asPage p a.schema b = _
  rw [PageArray.asPage, hpage]

end OpenFile

/-- The block of a page is read as a page with the same tuples, by any schema of the same column types. -/
theorem HeapPage.Reached.read_back {p : PageId} {s s' : Schema} {page : HeapPage} (h : Reached p s page)
    (hs : s.sameTypes s' = true) :
    ∃ q, decode p s' page.block.bytes = .ok q ∧ ∀ slot,
      (q.tuple? slot).map (fun t => (t.recordId, t.values)) =
        (page.tuple? slot).map fun t => (t.recordId, t.values) := by
  obtain ⟨hpage, rfl, rfl⟩ := h.wellFormed
  obtain ⟨q, hq, hrows, -⟩ := hpage.decode_block_of_sameTypes hs
  obtain ⟨hwf, hid, -⟩ := decode_wellFormed hq
  exact ⟨q, hq, tuple?_of_rows_eq hpage hwf hid hrows⟩

namespace OpenFile

/-- **A heap file is an array of pages.** A file of whole blocks can be opened, and answers any calls as the array
of its blocks does, whose blocks it consists of afterwards. A page that the file does not have is refused, and
nothing changes. A page that was not written is read as it was at first, or as zeros if it was added, and
any other page as it was written last; a page that was written as such is read with the same tuples. -/
theorem heap_file_is_page_array {before : FileStore} {path : String} {file : List String}
    (hpath : before.disk.target path = .ok file) (hwhole : (before.disk.contents file).length % pageSize = 0)
    (table : TableId) {schema : Schema} (hschema : schema.checkStorable = .ok ()) (calls : List FileCall)
    (hsize : (before.disk.contents file).length / pageSize + calls.countP FileCall.isAllocate <
      HeapFile.pageNumbers) :
    ∃ s₀, openAt before path table schema = .ok s₀ ∧
      let a₀ := PageArray.ofBytes table schema (before.disk.contents file)
      let s := (s₀.run path calls).2
      let a := (a₀.run calls).2
      Block.join a₀.blocks = before.disk.contents file ∧
      (s₀.run path calls).1 = (a₀.run calls).1 ∧
      s.Holds before.disk path file a ∧
      (∃ f, s.store.file? s.fd = some f ∧ (s.store.disk.contents file).length = f.numPages * pageSize) ∧
      (∀ c p, c.page? = some p → ¬ (p.table = a.table ∧ p.number < a.blocks.length) →
        s.serve path c = (.failed (.pageNotFound p), s)) ∧
      (∀ n < a.blocks.length, (∀ c ∈ calls, ¬ c.Writes n) →
        (s.serve path (.readBlock ⟨a.table, n⟩)).1 = .block (a₀.blocks[n]?.getD .zero)) ∧
      ∀ earlier c later p b, calls = earlier ++ c :: later → c.written? = some (p, b) →
        (a₀.run earlier).2.block? p ≠ none → (∀ c ∈ later, ¬ c.Writes p.number) → p.table = a.table →
        (s.serve path (.readBlock p)).1 = .block b ∧
        ∀ page, c = .writePage page → HeapPage.Reached page.id page.schema page →
          page.schema.sameTypes a.schema = true →
          ∃ q, (s.serve path (.readPage p)).1 = .page q ∧ ∀ slot,
            (q.tuple? slot).map (fun t => (t.recordId, t.values)) =
              (page.tuple? slot).map fun t => (t.recordId, t.values) := by
  have hbytes := Block.join_split hwhole
  have hlength := Block.length_split (before.disk.contents file)
  obtain ⟨s₀, hopen, hholds₀⟩ := openAt_eq hpath hbytes.symm (by omega) table hschema
  have hsize₀ : (Block.split (before.disk.contents file)).length + calls.countP FileCall.isAllocate <
      HeapFile.pageNumbers := by rwa [hlength]
  obtain ⟨hreplies, hholds⟩ := hholds₀.run hpath calls hsize₀
  refine ⟨s₀, hopen, hbytes, hreplies, hholds, ⟨_, hholds.opened, hholds.length_contents⟩,
    fun c p hc hp => hholds.serve_of_not_has hc hp, fun n hn hcalls => ?_, ?_⟩
  · exact hholds.reply_readBlock
      (PageArray.block?_eq_some_iff.2 ⟨rfl, PageArray.getElem?_blocks_run hcalls hn⟩)
  · rintro earlier c later p b rfl hc hp hlater htable
    have hblock := PageArray.block?_eq_some_iff.2
      ⟨htable, PageArray.getElem?_blocks_of_written hc hp hlater⟩
    refine ⟨hholds.reply_readBlock hblock, ?_⟩
    rintro page rfl hpage htypes
    obtain ⟨rfl, rfl⟩ := Prod.mk.inj (Option.some.inj hc)
    obtain ⟨q, hq, hsame⟩ := hpage.read_back htypes
    exact ⟨q, hholds.reply_readPage hblock hq, hsame⟩

/-- A page with a reading in its first slot. -/
def onePage : HeapPage := (HeapPage.blank ⟨3, 1⟩ HeapPage.readings).change (.insert HeapPage.noNumber)

set_option maxRecDepth 50000 in
/-- A file that does not exist yet gets two pages; the second one is written and the file reopened. -/
theorem page_array_of_onePage :
    ∃ s₀ q, openAt (.ofDisk .blank) "words" 3 HeapPage.readings = .ok s₀ ∧
      let s := (s₀.run "words" [.allocate, .allocate, .writePage onePage, .reopen 3 HeapPage.readings]).2
      (s.store.disk.contents ["words"]).length = 2 * pageSize ∧
      s.serve "words" (.readBlock ⟨3, 2⟩) = (.failed (.pageNotFound ⟨3, 2⟩), s) ∧
      (s.serve "words" (.readBlock ⟨3, 0⟩)).1 = .block .zero ∧
      (s.serve "words" (.readPage ⟨3, 1⟩)).1 = .page q ∧
      (q.tuple? 0).map (·.values) = some HeapPage.noNumber.values := by
  obtain ⟨s₀, hopen, -, -, hholds, -, hrefused, hunwritten, hwritten⟩ :=
    heap_file_is_page_array
      (show (FileStore.ofDisk .blank).disk.target "words" = .ok ["words"] by decide +kernel) (by decide +kernel) 3
      (show HeapPage.readings.checkStorable = .ok () by decide)
      [.allocate, .allocate, .writePage onePage, .reopen 3 HeapPage.readings] (by decide +kernel)
  have hpage : HeapPage.Reached ⟨3, 1⟩ HeapPage.readings onePage :=
    .change _ (.empty (HeapPage.empty_eq_ok_iff.2 ⟨by decide, rfl⟩))
  obtain ⟨-, hread⟩ := hwritten [.allocate, .allocate] _ [.reopen 3 HeapPage.readings] _ _ rfl rfl
    (by decide +kernel) (by decide +kernel) (by decide +kernel)
  obtain ⟨q, hq, hsame⟩ := hread onePage rfl hpage (by decide +kernel)
  refine ⟨s₀, q, hopen, hholds.length_contents.trans (by decide +kernel),
    hrefused _ ⟨3, 2⟩ rfl (by decide +kernel), hunwritten 0 (by decide +kernel) (by decide +kernel), hq, ?_⟩
  have hslot := congrArg (Option.map Prod.snd) (hsame 0)
  rw [Option.map_map, Option.map_map] at hslot
  exact hslot.trans (by decide +kernel)

end OpenFile

end HeapStore
