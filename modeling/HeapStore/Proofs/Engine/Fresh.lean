import HeapStore.Proofs.Engine.Tables
import HeapStore.Proofs.Engine.Twins
import Mathlib.Data.List.Induction

/-!
# Engines in which nothing happened yet

`Engine.withTables` starts an engine on a disk and registers tables. If their paths name different files, each
file is found as a ready engine needs it (`Engine.fresh_withTables`). The capacity of the cache makes no other
difference (`Engine.withTables_withPoolPages`), so that engines of any capacities but zero start as twins
(`Engine.twins_withTables`).
-/

namespace HeapStore

namespace Disk

variable {d : Disk} {file : List String}

/-- The file that was created exists, and no other one is lost. -/
theorem isSome_contents?_create {other : List String} (h : other = file ∨ (d.contents? other).isSome = true) :
    ((d.create file).contents? other).isSome = true := by
  unfold contents? create at *
  simp only [Std.ExtTreeMap.getElem?_insert, Std.compare_eq_iff_eq]
  split
  · rfl
  · next hne => exact h.resolve_left (Ne.symm hne)

end Disk

namespace Engine

variable {e e' : Engine} {disk : Disk} {settings : Settings} {tables : List NewTable}

def register (e : Engine) (table : NewTable) : Engine :=
  ((Op.addTable table.name table.path table.schema).run.run e).2

/-- A new engine with the tables registered, except for those that cannot be. -/
def withTables (disk : Disk) (settings : Settings) (tables : List NewTable) : Engine :=
  tables.foldl register (start disk settings)

theorem register_eq (e : Engine) (table : NewTable) :
    e.register table = match e.catalog.addTable e.store table.name table.path table.schema with
      | .ok (_, catalog, store) => { e with catalog, store }
      | .error _ => e := by
  rw [register, Op.run_addTable]
  cases e.catalog.addTable e.store table.name table.path table.schema with
  | ok added => rfl
  | error cause => rfl

theorem register_withCache (e : Engine) (c : Cache) (table : NewTable) :
    register { e with cache := c } table = { e.register table with cache := c } := by
  rw [register_eq, register_eq]
  dsimp only
  split <;> rfl

theorem withTables_withPoolPages (disk : Disk) (settings : Settings) (tables : List NewTable) (c : Nat) :
    withTables disk (settings.withPoolPages c) tables =
      { withTables disk settings tables with cache := { capacity := c } } := by
  have hfold : ∀ e : Engine, tables.foldl register { e with cache := { capacity := c } } =
      { tables.foldl register e with cache := { capacity := c } } := by
    intro e
    induction tables generalizing e with
    | nil => rfl
    | cons table tables ih => rw [List.foldl_cons, List.foldl_cons, register_withCache, ih]
  exact hfold (start disk settings)

/-- The paths name different files, so far as they name any. -/
def DistinctPaths (disk : Disk) (tables : List NewTable) : Prop :=
  tables.Pairwise fun a b => ∀ file, disk.target a.path = .ok file → disk.target b.path ≠ .ok file

/-- The tables were registered, so far as they can be, and nothing else happened. -/
structure Fresh (disk : Disk) (capacity : Nat) (tables : List NewTable) (e : Engine) : Prop where
  consistent : e.Consistent
  cache : e.cache = { capacity }
  folders : e.store.disk.folders = disk.folders
  paths : ∀ t f, e.file? t = some f → ∃ table ∈ tables, disk.target table.path = .ok f.path
  present : ∀ t f, e.file? t = some f → (e.store.disk.contents? f.path).isSome = true

theorem Fresh.register {capacity : Nat} (h : Fresh disk capacity tables e) {table : NewTable}
    (hnew : ∀ other ∈ tables, ∀ file, disk.target other.path = .ok file → disk.target table.path ≠ .ok file) :
    Fresh disk capacity (tables ++ [table]) (e.register table) := by
  have hpath : e.NewPath table.path := by
    rintro t f file hf htarget rfl
    obtain ⟨other, hmem, hother⟩ := h.paths t f hf
    exact hnew other hmem f.path hother ((Disk.target_eq_ok_iff h.folders).1 htarget)
  have hmore : ∀ {file}, (∃ table ∈ tables, disk.target table.path = .ok file) →
      ∃ other ∈ tables ++ [table], disk.target other.path = .ok file := fun ⟨other, hmem, hother⟩ =>
    ⟨other, List.mem_append_left _ hmem, hother⟩
  refine ((Op.ends_addTable_registers table.name table.schema hpath).mono ?_ ?_).always
  · rintro _ e' ⟨entry, f, hregisters, htarget, hcache, -, hdisk⟩
    have hfiles := hregisters.file?_eq h.consistent.toTablesOpen
    refine ⟨hregisters.consistent h.consistent hcache, hcache.trans h.cache, ?_, fun t g hg => ?_, fun t g hg => ?_⟩
    · rw [hdisk]
      exact h.folders
    · rw [hfiles] at hg
      split at hg
      · obtain rfl := Option.some.inj hg
        exact ⟨table, List.mem_append_right _ List.mem_cons_self, (Disk.target_eq_ok_iff h.folders).1 htarget⟩
      · exact hmore (h.paths t g hg)
    · rw [hdisk]
      rw [hfiles] at hg
      split at hg
      · obtain rfl := Option.some.inj hg
        exact Disk.isSome_contents?_create (Or.inl rfl)
      · exact Disk.isSome_contents?_create (Or.inr (h.present t g hg))
  · rintro cause e' rfl
    exact ⟨h.consistent, h.cache, h.folders, fun t f hf => hmore (h.paths t f hf), h.present⟩

theorem fresh_withTables (settings : Settings) (hpaths : DistinctPaths disk tables) :
    Fresh disk settings.poolPages tables (withTables disk settings tables) := by
  induction tables using List.reverseRecOn with
  | nil =>
    have hnone := file?_start disk settings
    exact ⟨consistent_start disk settings, rfl, rfl, fun t f hf => by simp [withTables, hnone] at hf,
      fun t f hf => by simp [withTables, hnone] at hf⟩
  | append_singleton tables table ih =>
    obtain ⟨hbefore, -, hnew⟩ := List.pairwise_append.1 hpaths
    rw [withTables, List.foldl_append]
    exact (ih hbefore).register fun other hmem => hnew other hmem table List.mem_cons_self

theorem Fresh.ready {capacity : Nat} (h : Fresh disk capacity tables e) (hroom : 0 < capacity) : e.Ready := by
  refine ⟨h.consistent, fun p page hcopy => ?_, h.cache ▸ Cache.tracked_empty capacity,
    h.cache ▸ Cache.unheld_empty capacity, h.cache ▸ hroom, h.present⟩
  rw [h.cache] at hcopy
  simp [Cache.copy?, Cache.handle?] at hcopy

/-- Engines that differ in the capacity of their caches start as twins. -/
theorem twins_withTables (settings : Settings) (hpaths : DistinctPaths disk tables) {c₁ c₂ : Nat} (h₁ : 0 < c₁)
    (h₂ : 0 < c₂) :
    Twins (withTables disk (settings.withPoolPages c₁) tables)
      (withTables disk (settings.withPoolPages c₂) tables) := by
  refine ⟨(fresh_withTables _ hpaths).ready h₁, (fresh_withTables _ hpaths).ready h₂, ?_, ?_⟩
  · rw [withTables_withPoolPages, withTables_withPoolPages]
    refine Agrees.of_cache { withTables disk settings tables with cache := { capacity := c₁ } } fun q => ?_
    simp [Cache.changed?, Cache.copy?, Cache.handle?]
  · rw [withTables_withPoolPages, withTables_withPoolPages]

end Engine

end HeapStore
