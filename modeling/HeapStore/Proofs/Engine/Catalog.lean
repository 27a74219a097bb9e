import HeapStore.Proofs.Engine.Fresh

/-!
# The catalog of an engine

Tables are registered one after the other, and a registration that is refused leaves the engine and its disk as they
were. This is not owed to the registration being a single step: done in steps, of which the one that creates the file
comes before the last check, it comes to the same (`Op.addTableInSteps_eq`).

A `Registry` keeps the tables that were registered on an engine, each with the number that it got. After any
registrations the catalog answers as this list does (`Registry.Sound`).
-/

namespace HeapStore

/-! ### A registration in steps -/

namespace HeapFile

variable {d : Disk} {file : List String}

/-- Opens a file step by step. It exists before its length is looked at. -/
def openInSteps (path : String) (table : TableId) (s : Schema) : ExceptT StorageError (StateM Disk) HeapFile := do
  liftExcept s.checkStorable
  let file ← liftExcept (((← get).target path).mapError StorageError.io)
  modify (·.create file)
  let length := ((← get).contents file).length
  if length % pageSize ≠ 0 then throw (.partialPage length)
  return ⟨table, s, file, length / pageSize % pageNumbers, 0, 0⟩

/-- A file that is refused for its length is not empty, so it was there before. -/
theorem create_eq_self_of_partial (h : (d.contents file).length % pageSize ≠ 0) : d.create file = d := by
  apply Disk.create_eq_self
  cases hfile : d.contents? file with
  | some bytes => rfl
  | none =>
    rw [Disk.contents, hfile] at h
    exact absurd rfl h

theorem run_openInSteps (d : Disk) (path : String) (table : TableId) (s : Schema) :
    (openInSteps path table s).run.run d = match openAt d path table s with
      | .ok (f, d') => (.ok f, d')
      | .error cause => (.error cause, d) := by
  apply Ends.run_eq
  unfold openInSteps
  simp only [ends_bind, ends_get, ends_liftExcept, ends_modify, Disk.contents_create]
  refine ⟨fun _ hs => ?_, fun cause hcause => by rw [openAt_of_not_storable hcause]⟩
  cases htarget : d.target path with
  | error failure =>
    rw [openAt_of_no_target hs htarget]
    refine ⟨fun file hfile => by simp [Except.mapError] at hfile, fun cause hcause => ?_⟩
    obtain rfl := Except.error.inj hcause
    rfl
  | ok file =>
    rw [openAt_of_target hs htarget]
    refine ⟨fun other hother => ?_, fun cause hcause => by simp [Except.mapError] at hcause⟩
    obtain rfl := Except.ok.inj hother
    split
    · next hlength =>
      rw [create_eq_self_of_partial hlength]
      exact rfl
    · rfl

end HeapFile

namespace Op

/-- Runs an operation on the disk. -/
def onDisk {α : Type} (op : ExceptT StorageError (StateM Disk) α) : Op α := do
  let (result, disk) := op.run.run (← get).store.disk
  modify fun e => { e with store := { e.store with disk } }
  liftExcept result

/-- Registers a table step by step: the name, the file, and then the counter and the two tables of the catalog. -/
def addTableInSteps (name path : String) (schema : Schema) : Op TableId := do
  if (← get).catalog.byName.contains name then throw (.tableAlreadyExists name)
  let table := (← get).catalog.nextId
  let f ← onDisk (HeapFile.openInSteps path table schema)
  modify fun e => { e with catalog := { e.catalog with nextId := e.catalog.nextId + 1 } }
  modify fun e => { e with catalog := { e.catalog with byName := e.catalog.byName.insert name table } }
  let fd := (← get).store.opened.length
  modify fun e => { e with store := { e.store with opened := e.store.opened ++ [f] } }
  modify fun e => { e with catalog := { e.catalog with byId := e.catalog.byId.insert table ⟨name, fd⟩ } }
  return table

theorem ends_onDisk {α : Type} {op : ExceptT StorageError (StateM Disk) α} {e : Engine} {ok : α → Engine → Prop}
    {err : StorageError → Engine → Prop} :
    Ends (onDisk op) e ok err ↔
      Ends op e.store.disk (fun a disk => ok a { e with store := { e.store with disk } })
        fun cause disk => err cause { e with store := { e.store with disk } } := by
  unfold onDisk
  rw [ends_bind, ends_get]
  unfold Ends
  cases op.run.run e.store.disk with | mk result disk =>
  cases result <;> rfl

/-- The steps come to the same as the registration at once, whatever they find. -/
theorem run_addTableInSteps (e : Engine) (name path : String) (schema : Schema) :
    (addTableInSteps name path schema).run.run e = (addTable name path schema).run.run e := by
  rw [run_addTable]
  apply Ends.run_eq
  unfold addTableInSteps
  simp only [ends_bind, ends_get, Catalog.contains_byName]
  cases hname : e.catalog.tableId? name with
  | some taken =>
    rw [Catalog.addTable_of_taken _ _ _ hname]
    exact rfl
  | none =>
    rw [Catalog.addTable_of_free _ _ _ hname]
    simp only [Option.isSome_none, Bool.false_eq_true, if_false, ends_bind, ends_get, ends_onDisk, ends_modify,
      ends_pure]
    unfold Ends
    rw [HeapFile.run_openInSteps]
    cases HeapFile.openAt e.store.disk path e.catalog.nextId schema with
    | error cause => rfl
    | ok opened => rfl

theorem addTableInSteps_eq (name path : String) (schema : Schema) :
    addTableInSteps name path schema = addTable name path schema :=
  funext fun e => run_addTableInSteps e name path schema

end Op

/-! ### Any number of registrations -/

/-- What happens around a catalog. -/
inductive CatalogEvent where
  | register (table : NewTable)
  /-- Others change the disk in whatever way. -/
  | disk (d : Disk)

/-- An engine and the tables that were registered on it, each with the number that it got. -/
structure Registry where
  engine : Engine
  given : List (TableId × NewTable)

namespace Registry

def start (disk : Disk) (settings : Settings) : Registry := ⟨.start disk settings, []⟩

def register (r : Registry) (table : NewTable) : Registry :=
  match (Op.addTable table.name table.path table.schema).run.run r.engine with
  | (.ok t, e) => ⟨e, r.given ++ [(t, table)]⟩
  | (.error _, e) => ⟨e, r.given⟩

def after (r : Registry) : CatalogEvent → Registry
  | .register table => r.register table
  | .disk d => { r with engine := { r.engine with store := { r.engine.store with disk := d } } }

/-- The catalog answers as the list of the tables does. -/
structure Sound (r : Registry) : Prop where
  numbered : r.given.map Prod.fst = List.range r.given.length
  next : r.engine.catalog.nextId = r.given.length
  names : ∀ name t, r.engine.catalog.tableId? name = some t ↔ ∃ table, (t, table) ∈ r.given ∧ table.name = name
  entries : ∀ t table, (t, table) ∈ r.given → ∃ fd f, r.engine.catalog.byId[t]? = some ⟨table.name, fd⟩ ∧
    r.engine.store.file? fd = some f ∧ f.table = t ∧ f.schema = table.schema
  beyond : ∀ t, r.given.length ≤ t → r.engine.catalog.byId[t]? = none

variable {r : Registry} {t : TableId} {name : String} {table : NewTable} {file : List String}

theorem sound_start (disk : Disk) (settings : Settings) : (start disk settings).Sound where
  numbered := rfl
  next := rfl
  names name t := by simp [start, Engine.start, Catalog.tableId?]
  entries t table h := by simp [start] at h
  beyond t _ := by simp [start, Engine.start]

theorem Sound.exists_mem_iff (h : r.Sound) : (∃ table, (t, table) ∈ r.given) ↔ t < r.given.length := by
  rw [← List.mem_range, ← h.numbered]
  simp

/-! ### What is looked up -/

theorem Sound.tableName_eq_ok_iff (h : r.Sound) :
    r.engine.catalog.tableName t = .ok name ↔ ∃ table, (t, table) ∈ r.given ∧ table.name = name := by
  unfold Catalog.tableName Catalog.entry
  constructor
  · intro hname
    cases hentry : r.engine.catalog.byId[t]? with
    | none => simp [hentry, bind, Except.bind] at hname
    | some entry =>
      have hlt : t < r.given.length := Nat.not_le.1 fun hle => by simp [h.beyond t hle] at hentry
      obtain ⟨table, hmem⟩ := h.exists_mem_iff.2 hlt
      obtain ⟨fd, f, hfound, -⟩ := h.entries t table hmem
      obtain rfl := Option.some.inj (hentry.symm.trans hfound)
      rw [hentry] at hname
      exact ⟨table, hmem, Except.ok.inj hname⟩
  · rintro ⟨table, hmem, rfl⟩
    obtain ⟨fd, f, hfound, -⟩ := h.entries t table hmem
    rw [hfound]
    rfl

theorem Sound.tableIds_eq (h : r.Sound) : r.engine.catalog.tableIds = List.range r.given.length := by
  have hmem : ∀ t, t ∈ r.engine.catalog.tableIds ↔ t ∈ List.range r.given.length := by
    intro t
    rw [Catalog.tableIds, Std.ExtTreeMap.mem_keys, Std.ExtTreeMap.mem_iff_isSome_getElem?, List.mem_range]
    constructor
    · intro hsome
      exact Nat.not_le.1 fun hle => by simp [h.beyond t hle] at hsome
    · intro hlt
      obtain ⟨table, hmem⟩ := h.exists_mem_iff.2 hlt
      obtain ⟨fd, f, hfound, -⟩ := h.entries t table hmem
      rw [hfound, Option.isSome_some]
  have hperm : r.engine.catalog.tableIds.Perm (List.range r.given.length) :=
    (List.perm_ext_iff_of_nodup Std.ExtTreeMap.nodup_keys List.nodup_range).2 hmem
  have hordered : r.engine.catalog.tableIds.Pairwise (· < ·) :=
    Std.ExtTreeMap.ordered_keys.imp fun h => Nat.compare_eq_lt.1 h
  exact hperm.eq_of_pairwise (fun a b _ _ hlt hgt => absurd hlt (Nat.lt_asymm hgt)) hordered List.pairwise_lt_range

/-! ### What happens -/

theorem Sound.enter (h : r.Sound) (hname : r.engine.catalog.tableId? table.name = none) (file : List String) :
    Sound ⟨r.engine.enter table file, r.given ++ [(r.engine.catalog.nextId, table)]⟩ where
  numbered := by
    rw [List.map_append, h.numbered, List.length_append, h.next]
    exact List.range_succ.symm
  next := by
    rw [List.length_append, ← h.next]
    rfl
  names other t := by
    show (r.engine.catalog.enter _ _).tableId? other = some t ↔ _
    rw [Catalog.tableId?_enter]
    constructor
    · intro hfound
      split at hfound
      · next heq =>
        obtain rfl := Option.some.inj hfound
        exact ⟨table, List.mem_append_right _ List.mem_cons_self, heq.symm⟩
      · obtain ⟨old, hmem, hold⟩ := (h.names other t).1 hfound
        exact ⟨old, List.mem_append_left _ hmem, hold⟩
    · rintro ⟨found, hmem, rfl⟩
      rcases List.mem_append.1 hmem with hold | hnew
      · have hfound := (h.names found.name t).2 ⟨found, hold, rfl⟩
        rw [if_neg fun heq => by simp [heq, hname] at hfound, hfound]
      · obtain ⟨rfl, rfl⟩ := Prod.mk.inj (List.mem_singleton.1 hnew)
        rw [if_pos rfl]
  entries t found hmem := by
    show ∃ fd f, (r.engine.catalog.enter _ _).byId[t]? = _ ∧ _
    rw [Catalog.byId_enter]
    rcases List.mem_append.1 hmem with hold | hnew
    · have hlt : t < r.given.length := h.exists_mem_iff.1 ⟨found, hold⟩
      obtain ⟨fd, f, hentry, hfile, hf⟩ := h.entries t found hold
      refine ⟨fd, f, ?_, ?_, hf⟩
      · rw [if_neg (h.next ▸ Nat.ne_of_lt hlt), hentry]
      · exact (List.getElem?_append_left (List.getElem?_eq_some_iff.1 hfile).1).trans hfile
    · obtain ⟨rfl, rfl⟩ := Prod.mk.inj (List.mem_singleton.1 hnew)
      exact ⟨_, _, if_pos rfl, List.getElem?_concat_length, rfl, rfl⟩
  beyond t ht := by
    show (r.engine.catalog.enter _ _).byId[t]? = none
    rw [List.length_append, List.length_singleton] at ht
    rw [Catalog.byId_enter, if_neg (h.next ▸ Nat.ne_of_gt ht)]
    exact h.beyond t (Nat.le_of_succ_le ht)

theorem Sound.register (h : r.Sound) (table : NewTable) : (r.register table).Sound := by
  have hends := Op.ends_addTable_enter r.engine table
  unfold Ends at hends
  unfold Registry.register
  split at hends
  · next heq =>
    obtain ⟨rfl, hfree, file, -, rfl⟩ := hends
    have hname : r.engine.catalog.tableId? table.name = none :=
      Option.eq_none_iff_forall_ne_some.2 fun t ht => hfree _ (.nameTaken ht)
    rw [heq]
    exact h.enter hname file
  · next heq =>
    obtain ⟨-, rfl⟩ := hends
    rw [heq]
    exact h

theorem Sound.after (h : r.Sound) (ev : CatalogEvent) : (r.after ev).Sound := by
  cases ev with
  | register table => exact h.register table
  | disk d => exact ⟨h.numbered, h.next, h.names, h.entries, h.beyond⟩

theorem sound_run (disk : Disk) (settings : Settings) (events : List CatalogEvent) :
    (events.foldl Registry.after (start disk settings)).Sound := by
  induction events using List.reverseRecOn with
  | nil => exact sound_start disk settings
  | append_singleton events ev ih =>
    rw [List.foldl_concat]
    exact ih.after ev

end Registry

/-- **The catalog numbers the tables in the order of their registration.** Tables were registered, or refused for
whatever cause, and others may have changed the disk in between. Then those that were registered got the numbers from
zero on, and these are the numbers of the catalog. A name stands for a number exactly if the number has that name. A
number that was given has the name of its table and an open file of that number with the schema of the table, and
any other number has neither. One more table is refused if there is a cause, and then the engine and the disk are as
before. Otherwise it gets the next number, and all that happens to the disk is that its file exists from then on. That
a registration is done in steps, of which the file is the first to be seen, makes no difference to this. -/
theorem catalog_consistent (disk : Disk) (settings : Settings) (events : List CatalogEvent) (table : NewTable) :
    let r := events.foldl Registry.after (.start disk settings)
    let e := r.engine
    r.given.map Prod.fst = List.range r.given.length ∧
      e.catalog.tableIds = List.range r.given.length ∧
      (∀ name t, e.catalog.tableId? name = some t ↔ e.catalog.tableName t = .ok name) ∧
      (∀ t given, (t, given) ∈ r.given → e.catalog.tableName t = .ok given.name ∧
        ∃ fd f, e.catalog.file t = .ok fd ∧ e.store.file? fd = some f ∧ f.table = t ∧ f.schema = given.schema) ∧
      (∀ t, r.given.length ≤ t → e.catalog.tableName t = .error (.tableNotFound t) ∧
        e.catalog.file t = .error (.tableNotFound t)) ∧
      Ends (Op.addTable table.name table.path table.schema) e
        (fun t e' => t = r.given.length ∧ (∀ cause, ¬ e.Refuses table cause) ∧
          ∃ file, e.store.disk.target table.path = .ok file ∧ e'.store.disk = e.store.disk.create file)
        (fun cause e' => e.Refuses table cause ∧ e' = e) ∧
      Op.addTableInSteps table.name table.path table.schema = Op.addTable table.name table.path table.schema := by
  intro r e
  have hr : r.Sound := Registry.sound_run disk settings events
  refine ⟨hr.numbered, hr.tableIds_eq, fun name t => ?_, fun t given hmem => ?_, fun t ht => ?_, ?_,
    Op.addTableInSteps_eq _ _ _⟩
  · exact (hr.names name t).trans hr.tableName_eq_ok_iff.symm
  · refine ⟨hr.tableName_eq_ok_iff.2 ⟨given, hmem, rfl⟩, ?_⟩
    obtain ⟨fd, f, hentry, hfile⟩ := hr.entries t given hmem
    refine ⟨fd, f, ?_, hfile⟩
    rw [Catalog.file, Catalog.entry, hentry]
    rfl
  · have hentry : e.catalog.entry t = .error (.tableNotFound t) := by
      rw [Catalog.entry, hr.beyond t ht]
    exact ⟨by rw [Catalog.tableName, hentry]; rfl, by rw [Catalog.file, hentry]; rfl⟩
  · refine (Op.ends_addTable_enter e table).mono ?_ fun _ _ h => h
    rintro _ _ ⟨rfl, hfree, file, htarget, rfl⟩
    exact ⟨hr.next, hfree, file, htarget, rfl⟩

/-- One boolean to a record. -/
def flags : Schema := ⟨[⟨"flag", .boolean⟩]⟩

/-- A disk with a file that is no heap file. -/
def scrapDisk : Disk := ⟨[], (∅ : Std.ExtTreeMap (List String) (List UInt8)).insert ["scrap"] [1, 2, 3]⟩

/-- The first table is registered. The next ones are refused: the name is taken, there is no column, no record fits
into a page, there is no such folder, and the file is no heap file. When someone has removed that file, the last table
can be registered. -/
def attempts : List CatalogEvent :=
  [.register ⟨"a", "a.dat", flags⟩, .register ⟨"a", "b.dat", flags⟩, .register ⟨"b", "b.dat", ⟨[]⟩⟩,
    .register ⟨"b", "b.dat", ⟨[⟨"text", .char 65535⟩]⟩⟩, .register ⟨"b", "missing/b.dat", flags⟩,
    .register ⟨"b", "scrap", flags⟩, .disk .blank, .register ⟨"b", "scrap", flags⟩]

/-- Two tables got the numbers zero and one, and a third one with the name of the first changes nothing. -/
theorem catalog_consistent_of_attempts :
    let r := attempts.foldl Registry.after (.start scrapDisk {})
    r.given.map (fun x => (x.1, x.2.name)) = [(0, "a"), (1, "b")] ∧ r.engine.catalog.tableIds = [0, 1] ∧
      r.engine.catalog.tableId? "b" = some 1 ∧ r.engine.catalog.file 2 = .error (.tableNotFound 2) ∧
      ((Op.addTable "a" "c.dat" flags).run.run r.engine).2 = r.engine := by
  intro r
  obtain ⟨-, hids, hnames, -, hbeyond, hnext, -⟩ := catalog_consistent scrapDisk {} attempts ⟨"a", "c.dat", flags⟩
  have hgiven : r.given.map (fun x => (x.1, x.2.name)) = [(0, "a"), (1, "b")] := by decide +kernel
  have hlength : r.given.length = 2 := by simpa using congrArg List.length hgiven
  have hfirst : r.engine.catalog.tableName 0 = .ok "a" := by decide +kernel
  have hsecond : r.engine.catalog.tableName 1 = .ok "b" := by decide +kernel
  have htaken : r.engine.catalog.tableId? "a" = some 0 := (hnames "a" 0).2 hfirst
  have hsame : Ends (Op.addTable "a" "c.dat" flags) r.engine (fun _ e' => e' = r.engine) fun _ e' => e' = r.engine :=
    hnext.mono (fun _ _ h => absurd (.nameTaken htaken) (h.2.1 _)) fun _ _ h => h.2
  exact ⟨hgiven, hids.trans (by rw [hlength]; rfl), (hnames "b" 1).2 hsecond,
    (hbeyond 2 (Nat.le_of_eq hlength)).2, hsame.always⟩

end HeapStore
