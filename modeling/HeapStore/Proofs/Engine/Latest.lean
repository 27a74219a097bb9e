import HeapStore.Proofs.Engine.Moves
import HeapStore.Proofs.Page.Views

/-!
# What the files hold once everything is written

A page counts with its latest block: that of its cached copy if the copy counts as changed, and otherwise
the one on the disk (`Engine.latestBlock`). Engines agree if their files have the same latest blocks and the
same bytes besides (`Engine.Agrees`); what is cached and what is already written makes no difference.

No move of the files and the cache changes a latest block (`Move.agrees`). Two changes do, and they do it
alike on engines that agree: a page is appended (`Agrees.appended`), or the cached copy of a page is replaced
by one that counts as changed (`Agrees.of_changed`).
-/

namespace HeapStore

/-- The cached copy of a page, if it counts as changed. -/
def Cache.changed? (c : Cache) (p : PageId) : Option HeapPage := (c.copy? p).filter (·.isDirty)

theorem Cache.changed?_eq_some_iff {c : Cache} {p : PageId} {page : HeapPage} :
    c.changed? p = some page ↔ c.copy? p = some page ∧ page.dirtiedBy ≠ none := by
  rw [changed?, Option.filter_eq_some_iff, HeapPage.isDirty, Option.isSome_iff_ne_none]

theorem Cache.changed?_eq_none {c : Cache} {p : PageId}
    (h : ∀ page, c.copy? p = some page → page.dirtiedBy = none) : c.changed? p = none := by
  rw [Option.eq_none_iff_forall_ne_some]
  intro page hpage
  obtain ⟨hcopy, hdirty⟩ := changed?_eq_some_iff.1 hpage
  exact hdirty (h page hcopy)

theorem Cache.changed?_congr {c c' : Cache} {p : PageId} (h : c'.copy? p = c.copy? p) :
    c'.changed? p = c.changed? p := by
  rw [changed?, changed?, h]

theorem Cache.changed?_setPage {c : Cache} (hc : c.Sound) {p : PageId} {h : Handle} {page : HeapPage}
    (hh : c.handle? p = some h) (hdirty : page.dirtiedBy ≠ none) (q : PageId) :
    (c.setPage h page).changed? q = if q = p then some page else c.changed? q := by
  have hcopies := hc.copy?_setPage hh page q
  split
  · next heq =>
    rw [if_pos heq] at hcopies
    exact changed?_eq_some_iff.2 ⟨hcopies, hdirty⟩
  · next hne =>
    rw [if_neg hne] at hcopies
    exact changed?_congr hcopies

theorem Cache.isSome_handle? {c : Cache} {p : PageId} {page : HeapPage} (hcopy : c.copy? p = some page) :
    (c.handle? p).isSome = true := by
  obtain ⟨h, hh, -⟩ := exists_handle hcopy
  rw [hh]
  rfl

/-! ### Bytes besides a write -/

namespace Disk

variable {bytes data : List UInt8} {offset : Nat}

theorem drop_overwrite (h : offset ≤ bytes.length) {n : Nat} (hn : offset + data.length ≤ n) :
    (overwrite bytes offset data).drop n = bytes.drop n := by
  obtain ⟨more, rfl⟩ := Nat.exists_eq_add_of_le hn
  have hfront : (bytes.take offset ++ data).length = offset + data.length := by
    rw [List.length_append, length_take_of_le h]
  have hsplit : ∀ l : List UInt8,
      l.drop (offset + data.length + more) = (l.drop (offset + data.length)).drop more := fun l =>
    List.drop_drop.symm
  rw [overwrite_eq h, ← List.append_assoc, hsplit, List.drop_left' hfront, hsplit]

end Disk

namespace Engine

variable {e e' e'' : Engine} {p q : PageId} {page : HeapPage} {h : Handle} {f g : HeapFile} {t t' : TableId}
  {entry : TableEntry} {n : Nat}

/-! ### Latest blocks -/

/-- The block of a file's page `n`, whether or not it is written yet. -/
def latestBlock (e : Engine) (f : HeapFile) (n : Nat) : List UInt8 :=
  match e.cache.changed? ⟨f.table, n⟩ with
  | some page => page.block.bytes
  | none => e.store.disk.read f.path (n * pageSize) pageSize

/-- The bytes of a file behind its pages. -/
def tail (e : Engine) (f : HeapFile) : List UInt8 := (e.store.disk.contents f.path).drop (f.numPages * pageSize)

/-- The page that would be read if everything were written. -/
def latest (e : Engine) (p : PageId) : Except StorageError HeapPage :=
  match e.file? p.table with
  | none => .error (.tableNotFound p.table)
  | some f =>
    if p.number < f.numPages then HeapPage.decode p f.schema (e.latestBlock f p.number)
    else .error (.pageNotFound p)

/-- The same tables, whose files hold the same once everything is written. -/
structure Agrees (e e' : Engine) : Prop where
  catalog : e'.catalog = e.catalog
  files : ∀ fd, (e'.store.file? fd).map HeapFile.uncounted = (e.store.file? fd).map HeapFile.uncounted
  blocks : ∀ t f, e.file? t = some f → ∀ n < f.numPages, e'.latestBlock f n = e.latestBlock f n
  tails : ∀ t f, e.file? t = some f → e'.tail f = e.tail f
  others : ∀ file, (∀ t f, e.file? t = some f → f.path ≠ file) →
    e'.store.disk.contents? file = e.store.disk.contents? file

theorem latestBlock_eq_of_uncounted_eq (h : f.uncounted = g.uncounted) (n : Nat) :
    e.latestBlock f n = e.latestBlock g n := by
  obtain ⟨htable, -, hpath, -⟩ := HeapFile.uncounted_eq_iff.1 h
  rw [latestBlock, latestBlock, htable, hpath]

theorem tail_eq_of_uncounted_eq (h : f.uncounted = g.uncounted) : e.tail f = e.tail g := by
  obtain ⟨-, -, hpath, hpages⟩ := HeapFile.uncounted_eq_iff.1 h
  rw [tail, tail, hpath, hpages]

/-- The files and the changed pages are all that a latest block depends on. -/
theorem latestBlock_congr (hdisk : e'.store.disk.contents f.path = e.store.disk.contents f.path)
    (hchanged : e'.cache.changed? ⟨f.table, n⟩ = e.cache.changed? ⟨f.table, n⟩) :
    e'.latestBlock f n = e.latestBlock f n := by
  rw [latestBlock, latestBlock, hchanged, Disk.read, Disk.read, hdisk]

theorem Agrees.sameFiles (h : Agrees e e') : e.SameFiles e' := by
  refine ⟨h.catalog, fun t => ?_⟩
  unfold file?
  rw [h.catalog]
  cases e.catalog.byId[t]? with
  | none => rfl
  | some entry => exact h.files entry.file

theorem Agrees.refl (e : Engine) : Agrees e e :=
  ⟨rfl, fun _ => rfl, fun _ _ _ _ _ => rfl, fun _ _ _ => rfl, fun _ _ => rfl⟩

theorem Agrees.symm (h : Agrees e e') : Agrees e' e := by
  have hsame := h.sameFiles
  refine ⟨h.catalog.symm, fun fd => (h.files fd).symm, fun t f hf n hn => ?_, fun t f hf => ?_,
    fun file hfile => ?_⟩
  · obtain ⟨g, hg, heq⟩ := hsame.exists_file' hf
    obtain ⟨-, -, -, hpages⟩ := HeapFile.uncounted_eq_iff.1 heq
    rw [latestBlock_eq_of_uncounted_eq heq.symm, latestBlock_eq_of_uncounted_eq heq.symm]
    exact (h.blocks t g hg n (hpages ▸ hn)).symm
  · obtain ⟨g, hg, heq⟩ := hsame.exists_file' hf
    rw [tail_eq_of_uncounted_eq heq.symm, tail_eq_of_uncounted_eq heq.symm]
    exact (h.tails t g hg).symm
  · refine (h.others file fun t g hg => ?_).symm
    obtain ⟨f, hf, heq⟩ := hsame.exists_file hg
    obtain ⟨-, -, hpath, -⟩ := HeapFile.uncounted_eq_iff.1 heq
    exact hpath ▸ hfile t f hf

theorem Agrees.trans (h : Agrees e e') (h' : Agrees e' e'') : Agrees e e'' := by
  refine ⟨h'.catalog.trans h.catalog, fun fd => (h'.files fd).trans (h.files fd), fun t f hf n hn => ?_,
    fun t f hf => ?_, fun file hfile => ?_⟩
  · obtain ⟨g, hg, heq⟩ := h.sameFiles.exists_file hf
    obtain ⟨-, -, -, hpages⟩ := HeapFile.uncounted_eq_iff.1 heq
    rw [← h.blocks t f hf n hn, ← latestBlock_eq_of_uncounted_eq heq, ← latestBlock_eq_of_uncounted_eq heq]
    exact h'.blocks t g hg n (hpages ▸ hn)
  · obtain ⟨g, hg, heq⟩ := h.sameFiles.exists_file hf
    rw [← h.tails t f hf, ← tail_eq_of_uncounted_eq heq, ← tail_eq_of_uncounted_eq heq]
    exact h'.tails t g hg
  · refine (h'.others file fun t g hg => ?_).trans (h.others file hfile)
    obtain ⟨f, hf, heq⟩ := h.sameFiles.exists_file' hg
    obtain ⟨-, -, hpath, -⟩ := HeapFile.uncounted_eq_iff.1 heq
    exact hpath ▸ hfile t f hf

theorem Agrees.latest_eq (h : Agrees e e') (p : PageId) : e'.latest p = e.latest p := by
  unfold latest
  cases hf : e.file? p.table with
  | none => rw [h.sameFiles.file?_eq_none hf]
  | some f =>
    obtain ⟨g, hg, heq⟩ := h.sameFiles.exists_file hf
    obtain ⟨-, hschema, -, hpages⟩ := HeapFile.uncounted_eq_iff.1 heq
    rw [hg]
    dsimp only
    rw [hschema, hpages, latestBlock_eq_of_uncounted_eq heq]
    split
    · next hlt => rw [h.blocks _ f hf _ hlt]
    · rfl

theorem TablesOpen.latest_eq_stored (he : e.TablesOpen) (hclean : e.cache.changed? p = none) :
    e.latest p = e.stored p := by
  unfold latest
  cases hf : e.file? p.table with
  | none => rw [he.stored_of_none hf]
  | some f =>
    have htable := he.table_eq hf
    have hid : (⟨f.table, p.number⟩ : PageId) = p := by rw [htable]
    rw [he.stored_eq hf]
    dsimp only
    split
    · next hlt =>
      rw [(he.onDisk hf).load_eq ⟨htable.symm, hlt⟩, latestBlock, hid, hclean]
    · next hnot => rw [HeapFile.load_of_not_has fun hhas => hnot hhas.2]

/-! ### Moves -/

/-- The latest blocks after a page was written to its place: that page there, if no changed copy stands before
it, and the others as before. -/
theorem TablesOpen.latestBlock_write (he : e.TablesOpen) (hf : e.file? p.table = some f)
    (hstart : p.number * pageSize ≤ (e.store.disk.contents f.path).length) (b : Block)
    (hdisk : e'.store.disk = e.store.disk.write f.path (p.number * pageSize) b.bytes)
    (hself : e'.cache.changed? p = none)
    (hothers : ∀ q, q ≠ p → e'.cache.changed? q = e.cache.changed? q)
    (hg : e.file? t = some g) (n : Nat) :
    e'.latestBlock g n = if (⟨g.table, n⟩ : PageId) = p then b.bytes else e.latestBlock g n := by
  have hgtable := he.table_eq hg
  split
  · next heq =>
    have htable : p.table = t := by rw [← heq, hgtable]
    have hnumber : p.number = n := by rw [← heq]
    rw [htable, hg] at hf
    obtain rfl := Option.some.inj hf
    have hread := Disk.read_write e.store.disk g.path (p.number * pageSize) b.bytes
    rw [b.length_bytes] at hread
    rw [latestBlock, heq, hself, hdisk, ← hnumber]
    exact hread
  · next hne =>
    rw [latestBlock, latestBlock, hothers _ hne, hdisk, he.read_write_of_ne hf hstart b hg hne]

theorem Agrees.of_cache (e : Engine) {c : Cache} (h : ∀ q, c.changed? q = e.cache.changed? q) :
    Agrees e { e with cache := c } :=
  ⟨rfl, fun _ => rfl, fun _ _ _ _ _ => latestBlock_congr rfl (h _), fun _ _ _ => rfl, fun _ _ => rfl⟩

theorem Agrees.locks (e : Engine) (locks : LockTable) : Agrees e { e with locks } :=
  ⟨rfl, fun _ => rfl, fun _ _ _ _ _ => rfl, fun _ _ _ => rfl, fun _ _ => rfl⟩

theorem Consistent.agrees_written (he : e.Consistent) (hh : e.cache.handle? p = some h)
    (hcopy : e.cache.copy? p = some page) (hdirty : page.dirtiedBy ≠ none)
    (ht : e.catalog.byId[p.table]? = some entry) (hf : e.store.file? entry.file = some f) :
    Agrees e { e with
      store := e.store.put entry.file f p page.block
      cache := e.cache.setPage h page.markClean } := by
  have hfile : e.file? p.table = some f := (file?_of_entry ht).trans hf
  obtain ⟨-, g, hg, -, hhas⟩ := he.fits p page hcopy
  rw [hfile] at hg
  obtain rfl := Option.some.inj hg
  have hend := HeapFile.end_le (he.onDisk hfile) hhas
  have hstart := Nat.le_of_add_right_le hend
  have hcopies := he.sound.copy?_setPage hh page.markClean
  have hself : (e.cache.setPage h page.markClean).changed? p = none := by
    refine Cache.changed?_eq_none fun page' hcopy' => ?_
    rw [hcopies, if_pos rfl] at hcopy'
    exact Option.some.inj hcopy' ▸ rfl
  have hothers : ∀ q, q ≠ p → (e.cache.setPage h page.markClean).changed? q = e.cache.changed? q := fun q hq =>
    Cache.changed?_congr (by rw [hcopies, if_neg hq])
  refine ⟨rfl, fun fd => ?_, fun t g hg n hn => ?_, fun t g hg => ?_, fun file hnot => ?_⟩
  · show ((e.store.put entry.file f p page.block).file? fd).map _ = _
    rw [FileStore.file?_put hf]
    split
    · next heq => rw [heq, hf]; rfl
    · rfl
  · rw [he.toTablesOpen.latestBlock_write hfile hstart page.block rfl hself hothers hg]
    split
    · next heq => rw [latestBlock, heq, Cache.changed?_eq_some_iff.2 ⟨hcopy, hdirty⟩]
    · rfl
  · show ((e.store.disk.write f.path _ _).contents g.path).drop _ = _
    by_cases heq : t = p.table
    · subst heq
      rw [hfile] at hg
      obtain rfl := Option.some.inj hg
      have hbehind : p.number * pageSize + page.block.bytes.length ≤ f.numPages * pageSize := by
        rw [page.block.length_bytes, ← Nat.succ_mul]
        exact Nat.mul_le_mul_right _ hhas.2
      rw [Disk.contents_write_self, Disk.drop_overwrite hstart hbehind, tail]
    · rw [he.contents_write_of_ne hfile hg heq, tail]
  · show (e.store.disk.write f.path _ _).contents? file = _
    rw [Disk.contents?_write, if_neg (Ne.symm (hnot _ f hfile))]

/-- No move changes what the files hold once everything is written. -/
theorem Move.agrees (hmove : Move e e') (he : e.Consistent) : Agrees e e' := by
  cases hmove with
  | counted hs =>
    refine ⟨rfl, hs.files, fun t f _ n _ => ?_, fun t f _ => ?_, fun file _ => ?_⟩
    · exact latestBlock_congr (by rw [hs.disk]) rfl
    · rw [tail, tail, hs.disk]
    · rw [hs.disk]
  | touched hp => exact .of_cache e fun q => rfl
  | written hh hcopy hdirty ht hf => exact he.agrees_written hh hcopy hdirty ht hf
  | @removed p hclean =>
    refine .of_cache e fun q => ?_
    have hcopies := he.sound.copy?_remove p q
    by_cases hq : q = p
    · subst hq
      rw [Cache.changed?_eq_none hclean, Cache.changed?, hcopies, if_pos rfl, Option.filter_none]
    · rw [if_neg hq] at hcopies
      exact Cache.changed?_congr hcopies
  | @loaded p page hpage hmissing =>
    obtain ⟨-, hid, hclean⟩ := he.fits_stored hpage
    rw [← hid] at hmissing
    refine .of_cache e fun q => ?_
    have hcopies := he.sound.copy?_load hmissing q
    by_cases hq : q = page.id
    · have hnone : e.cache.changed? q = none := by
        rw [Cache.changed?, hq, Cache.copy?_eq_none hmissing, Option.filter_none]
      rw [hnone]
      refine Cache.changed?_eq_none fun page' hcopy => ?_
      rw [hcopies, if_pos hq] at hcopy
      exact Option.some.inj hcopy ▸ hclean
    · rw [if_neg hq] at hcopies
      exact Cache.changed?_congr hcopies

theorem Moves.agrees (hmoves : Moves e e') (he : e.Consistent) : Agrees e e' := by
  induction hmoves with
  | refl => exact .refl e
  | tail hmoves hmove ih => exact ih.trans (hmove.agrees (Moves.keeps hmoves he).consistent)

/-! ### Changes -/

variable {e₁ e₂ : Engine} {page₁ page₂ : HeapPage} {f₁ f₂ : HeapFile}

/-- The same change of a page on engines that agree: each has a new copy of it, and these have the same block. -/
theorem Agrees.of_changed (hagrees : Agrees e₁ e₂) {c₁ c₂ : Cache}
    (h₁ : ∀ q, c₁.changed? q = if q = p then some page₁ else e₁.cache.changed? q)
    (h₂ : ∀ q, c₂.changed? q = if q = p then some page₂ else e₂.cache.changed? q)
    (hblock : page₁.block = page₂.block) : Agrees { e₁ with cache := c₁ } { e₂ with cache := c₂ } := by
  refine ⟨hagrees.catalog, hagrees.files, fun t f hf n hn => ?_, hagrees.tails, hagrees.others⟩
  have hbefore := hagrees.blocks t f hf n hn
  unfold latestBlock at hbefore ⊢
  dsimp only
  rw [h₁, h₂]
  by_cases hself : (⟨f.table, n⟩ : PageId) = p
  · rw [if_pos hself, if_pos hself]
    exact congrArg Block.bytes hblock.symm
  · rw [if_neg hself, if_neg hself]
    exact hbefore

theorem file?_appended_of_ne (he : e.TablesOpen) (ht : e.catalog.byId[t]? = some entry) (hne : t' ≠ t) :
    (e.appended entry.file f).file? t' = e.file? t' := by
  rw [he.file?_appended ht, if_neg hne]

theorem file?_appended_self (he : e.TablesOpen) (ht : e.catalog.byId[t]? = some entry) :
    (e.appended entry.file f).file? t = some (f.append e.store.disk).1 := by
  rw [he.file?_appended ht, if_pos rfl]

theorem Consistent.copy?_nextPage (he : e.Consistent) (hf : e.file? t = some f) :
    e.cache.copy? f.nextPage = none := by
  rw [Option.eq_none_iff_forall_ne_some]
  intro page hpage
  obtain ⟨-, g, hg, -, hhas⟩ := he.fits _ page hpage
  have htable : f.nextPage.table = t := he.table_eq hf
  rw [htable, hf] at hg
  obtain rfl := Option.some.inj hg
  exact Nat.lt_irrefl _ hhas.2

/-- An append adds a block of zeros and changes no other one. -/
theorem Consistent.latestBlock_appended (he : e.Consistent) (ht : e.catalog.byId[t]? = some entry)
    (hf : e.store.file? entry.file = some f) (hg : e.file? t' = some g) (n : Nat) :
    (e.appended entry.file f).latestBlock g n =
      if (⟨g.table, n⟩ : PageId) = f.nextPage then Block.zero.bytes else e.latestBlock g n := by
  have hfile : e.file? t = some f := (file?_of_entry ht).trans hf
  have htable : f.nextPage.table = t := he.table_eq hfile
  have hself : (e.appended entry.file f).cache.changed? f.nextPage = none := by
    show e.cache.changed? f.nextPage = none
    rw [Cache.changed?, he.copy?_nextPage hfile, Option.filter_none]
  have hstart : f.nextPage.number * pageSize ≤ (e.store.disk.contents f.path).length := (he.onDisk hfile).length
  have hdisk : (e.appended entry.file f).store.disk =
      e.store.disk.write f.path (f.nextPage.number * pageSize) Block.zero.bytes := rfl
  rw [← htable] at hfile
  exact he.toTablesOpen.latestBlock_write hfile hstart Block.zero hdisk hself (fun _ _ => rfl) hg n

theorem TablesOpen.tail_appended (he : e.TablesOpen) (hf : e.file? t = some f) (fd : Descriptor) :
    (e.appended fd f).tail (f.append e.store.disk).1 = (e.tail f).drop pageSize := by
  show ((e.store.disk.write f.path (f.numPages * pageSize) Block.zero.bytes).contents f.path).drop
    ((f.numPages + 1) * pageSize) = _
  have hbehind : f.numPages * pageSize + Block.zero.bytes.length ≤ (f.numPages + 1) * pageSize :=
    Nat.le_of_eq (by rw [Block.zero.length_bytes, ← Nat.succ_mul])
  rw [Disk.contents_write_self, Disk.drop_overwrite (he.onDisk hf).length hbehind, tail, List.drop_drop,
    Nat.succ_mul]

theorem TablesOpen.tail_appended_of_ne (he : e.TablesOpen) (hf : e.file? t = some f) (hg : e.file? t' = some g)
    (hne : t' ≠ t) (fd : Descriptor) : (e.appended fd f).tail g = e.tail g := by
  rw [tail, tail, he.contents_appended hf hg hne]

theorem contents?_appended (fd : Descriptor) {file : List String} (hne : f.path ≠ file) :
    (e.appended fd f).store.disk.contents? file = e.store.disk.contents? file := by
  show (e.store.disk.write f.path _ _).contents? file = _
  rw [Disk.contents?_write, if_neg (Ne.symm hne)]

theorem uncounted_append (h : f.uncounted = g.uncounted) (d d' : Disk) :
    (f.append d).1.uncounted = (g.append d').1.uncounted := by
  obtain ⟨htable, hschema, hpath, hpages⟩ := HeapFile.uncounted_eq_iff.1 h
  exact HeapFile.uncounted_eq_iff.2 ⟨htable, hschema, hpath, congrArg (· + 1) hpages⟩

theorem Agrees.uncounted_eq (hagrees : Agrees e₁ e₂) {fd : Descriptor} (hf₁ : e₁.store.file? fd = some f₁)
    (hf₂ : e₂.store.file? fd = some f₂) : f₂.uncounted = f₁.uncounted := by
  have hfiles := hagrees.files fd
  rw [hf₁, hf₂] at hfiles
  exact Option.some.inj hfiles

/-- After the same append, engines that agreed have the same new page and the same others. -/
theorem Agrees.latestBlock_appended (hagrees : Agrees e₁ e₂) (he₁ : e₁.Consistent) (he₂ : e₂.Consistent)
    (ht : e₁.catalog.byId[t]? = some entry) (hf₁ : e₁.store.file? entry.file = some f₁)
    (hf₂ : e₂.store.file? entry.file = some f₂) (hg : e₁.file? t' = some g)
    (hn : (⟨g.table, n⟩ : PageId) = f₁.nextPage ∨ n < g.numPages) :
    (e₂.appended entry.file f₂).latestBlock g n = (e₁.appended entry.file f₁).latestBlock g n := by
  have ht₂ : e₂.catalog.byId[t]? = some entry := hagrees.catalog ▸ ht
  obtain ⟨htable, -, -, hpages⟩ := HeapFile.uncounted_eq_iff.1 (hagrees.uncounted_eq hf₁ hf₂)
  have hnext : f₂.nextPage = f₁.nextPage := by rw [HeapFile.nextPage, HeapFile.nextPage, htable, hpages]
  obtain ⟨g₂, hg₂, heq⟩ := hagrees.sameFiles.exists_file hg
  obtain ⟨hgtable, -⟩ := HeapFile.uncounted_eq_iff.1 heq
  rw [← latestBlock_eq_of_uncounted_eq heq, he₂.latestBlock_appended ht₂ hf₂ hg₂,
    he₁.latestBlock_appended ht hf₁ hg, hnext, hgtable, latestBlock_eq_of_uncounted_eq heq]
  split
  · rfl
  · next hne => exact hagrees.blocks t' g hg n (hn.resolve_left hne)

theorem Agrees.tail_appended (hagrees : Agrees e₁ e₂) (he₁ : e₁.TablesOpen) (he₂ : e₂.TablesOpen)
    (ht : e₁.catalog.byId[t]? = some entry) (hf₁ : e₁.store.file? entry.file = some f₁)
    (hf₂ : e₂.store.file? entry.file = some f₂) (hg : (e₁.appended entry.file f₁).file? t' = some g) :
    (e₂.appended entry.file f₂).tail g = (e₁.appended entry.file f₁).tail g := by
  have hfile₁ : e₁.file? t = some f₁ := (file?_of_entry ht).trans hf₁
  have hfile₂ : e₂.file? t = some f₂ := (file?_of_entry (hagrees.catalog ▸ ht)).trans hf₂
  have hsame := hagrees.uncounted_eq hf₁ hf₂
  by_cases heq : t' = t
  · subst heq
    rw [file?_appended_self he₁ ht] at hg
    obtain rfl := Option.some.inj hg
    rw [tail_eq_of_uncounted_eq (uncounted_append hsame.symm e₁.store.disk e₂.store.disk),
      he₁.tail_appended hfile₁, he₂.tail_appended hfile₂, tail_eq_of_uncounted_eq hsame, hagrees.tails t' f₁ hfile₁]
  · rw [file?_appended_of_ne he₁ ht heq] at hg
    obtain ⟨g₂, hg₂, heq₂⟩ := hagrees.sameFiles.exists_file hg
    rw [he₁.tail_appended_of_ne hfile₁ hg heq, ← tail_eq_of_uncounted_eq heq₂,
      he₂.tail_appended_of_ne hfile₂ hg₂ heq, tail_eq_of_uncounted_eq heq₂, hagrees.tails t' g hg]

theorem Agrees.appended (hagrees : Agrees e₁ e₂) (he₁ : e₁.Consistent) (he₂ : e₂.Consistent)
    (ht : e₁.catalog.byId[t]? = some entry) (hf₁ : e₁.store.file? entry.file = some f₁)
    (hf₂ : e₂.store.file? entry.file = some f₂) :
    Agrees (e₁.appended entry.file f₁) (e₂.appended entry.file f₂) := by
  have hfile₁ : e₁.file? t = some f₁ := (file?_of_entry ht).trans hf₁
  have hsame := hagrees.uncounted_eq hf₁ hf₂
  obtain ⟨-, -, hpath, -⟩ := HeapFile.uncounted_eq_iff.1 hsame
  refine ⟨hagrees.catalog, fun fd => ?_, fun t' g hg n hn => ?_,
    fun t' g hg => hagrees.tail_appended he₁.toTablesOpen he₂.toTablesOpen ht hf₁ hf₂ hg, fun file hfile => ?_⟩
  · show ((e₂.store.setFile entry.file _).file? fd).map _ = ((e₁.store.setFile entry.file _).file? fd).map _
    rw [FileStore.file?_setFile hf₁, FileStore.file?_setFile hf₂]
    split
    · exact congrArg some (uncounted_append hsame e₂.store.disk e₁.store.disk)
    · exact hagrees.files fd
  · by_cases heq : t' = t
    · subst heq
      rw [file?_appended_self he₁.toTablesOpen ht] at hg
      obtain rfl := Option.some.inj hg
      have hplace : (⟨f₁.table, n⟩ : PageId) = f₁.nextPage ∨ n < f₁.numPages :=
        (Nat.lt_succ_iff_lt_or_eq.1 hn).symm.imp_left fun hlast => by rw [hlast, HeapFile.nextPage]
      show (e₂.appended entry.file f₂).latestBlock f₁ n = (e₁.appended entry.file f₁).latestBlock f₁ n
      exact hagrees.latestBlock_appended he₁ he₂ ht hf₁ hf₂ hfile₁ hplace
    · rw [file?_appended_of_ne he₁.toTablesOpen ht heq] at hg
      exact hagrees.latestBlock_appended he₁ he₂ ht hf₁ hf₂ hg (Or.inr hn)
  · have hpaths : ∀ (t' : TableId) (g : HeapFile), e₁.file? t' = some g → g.path ≠ file := by
      intro t' g hg
      by_cases heq : t' = t
      · subst heq
        rw [hfile₁] at hg
        obtain rfl := Option.some.inj hg
        exact hfile t' (f₁.append e₁.store.disk).1 (file?_appended_self he₁.toTablesOpen ht)
      · exact hfile t' g ((file?_appended_of_ne he₁.toTablesOpen ht heq).trans hg)
    have hne : f₁.path ≠ file := hpaths t f₁ hfile₁
    rw [contents?_appended _ hne, contents?_appended _ (hpath.symm ▸ hne), hagrees.others file hpaths]

end Engine

end HeapStore
