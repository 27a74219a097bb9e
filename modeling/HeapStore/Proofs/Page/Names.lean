import HeapStore.Proofs.Page.Slots
import HeapStore.Proofs.Page.Views

/-!
# Columns by name

A name stands for a place among the columns of a schema. A page takes every tuple whose columns have the page's types,
whatever they are called, and the tuple goes by the names that it came with until the page is written and read again;
from then on it goes by the page's (`WellFormed.names_after_reload`). Its values stay, so a name gives the same before
and after if it stands for the same place in both schemas.

A page is `Named` if this is so for all its tuples and all names. It stays named unless a tuple that goes by other names
is inserted, and every page that is read is named.
-/

namespace HeapStore

/-- Does every name stand for the same place in both schemas? -/
def Schema.SameNames (s s' : Schema) : Prop := ∀ name, s.index? name = s'.index? name

/-- The value of the column that a schema has under a name. -/
def Tuple.valueBy (t : Tuple) (s : Schema) (name : String) : Option Value := (s.index? name).bind t.value?

theorem Tuple.valueNamed?_eq (t : Tuple) (name : String) : t.valueNamed? name = t.valueBy t.schema name := rfl

theorem Tuple.valueNamed?_eq_valueBy {t : Tuple} {s : Schema} (h : t.schema.SameNames s) (name : String) :
    t.valueNamed? name = t.valueBy s name := by
  rw [valueNamed?_eq, valueBy, valueBy, h name]

namespace HeapPage

variable {p q p' : HeapPage} {id : PageId} {s : Schema} {t stored : Tuple} {slot : Nat}

/-- Every stored tuple goes by the page's names. -/
def Named (p : HeapPage) : Prop := ∀ slot t, p.tuple? slot = some t → t.schema.SameNames p.schema

/-! ### Writing and reading -/

/-- A page that was written and read has the same values at the same record ids, and its tuples go by the page's
names. -/
theorem WellFormed.names_after_reload (hp : p.WellFormed) :
    ∃ q, decode p.id p.schema p.block.bytes = .ok q ∧ ∀ slot t, p.tuple? slot = some t →
      ∃ t', q.tuple? slot = some t' ∧ t'.recordId = t.recordId ∧ t'.values = t.values ∧ t'.schema = p.schema := by
  obtain ⟨q, hq, hrows, -⟩ := hp.decode_block
  obtain ⟨hwf, hid, -⟩ := decode_wellFormed hq
  refine ⟨q, hq, fun slot t ht => ?_⟩
  have hsame := tuple?_of_rows_eq hp hwf hid hrows slot
  rw [ht, Option.map_some, Option.map_eq_some_iff] at hsame
  obtain ⟨t', ht', heq⟩ := hsame
  obtain ⟨hrecord, hvalues⟩ := Prod.mk.inj heq
  exact ⟨t', ht', hrecord, hvalues, schema_of_decode hq ht'⟩

theorem named_of_decode {bytes : List UInt8} (h : decode id s bytes = .ok p) : p.Named := by
  intro slot t ht name
  obtain ⟨-, -, hschema, -⟩ := decode_wellFormed h
  rw [schema_of_decode h ht, hschema]

/-- Reading a named page again changes no answer. -/
theorem Named.reload (hn : p.Named) (hp : p.WellFormed) :
    ∃ q, decode p.id p.schema p.block.bytes = .ok q ∧ ∀ slot name,
      (q.tuple? slot).bind (·.valueNamed? name) = (p.tuple? slot).bind (·.valueNamed? name) := by
  obtain ⟨q, hq, hrows, -⟩ := hp.decode_block
  obtain ⟨-, -, hschema, -⟩ := decode_wellFormed hq
  -- On a named page an answer depends on the values in the slot only.
  have hanswer : ∀ {page : HeapPage}, page.Named → ∀ slot name, (page.tuple? slot).bind (·.valueNamed? name) =
      ((page.tuple? slot).map (·.values)).bind fun values => (page.schema.index? name).bind (values[·]?) := by
    intro page hpage slot name
    cases ht : page.tuple? slot with
    | none => rfl
    | some t => exact Tuple.valueNamed?_eq_valueBy (hpage slot t ht) name
  refine ⟨q, hq, fun slot name => ?_⟩
  rw [hanswer hn, hanswer (named_of_decode hq), values_tuple?, values_tuple?, hrows, hschema]

/-- A tuple that was inserted goes by the names that it came with, and by the page's once the page was written and
read. -/
theorem WellFormed.names_after_insert (hp : p.WellFormed) (h : p.insert t = .ok (stored, p')) :
    ∃ slot q t', p'.tuple? slot = some stored ∧ decode p.id p.schema p'.block.bytes = .ok q ∧
      q.tuple? slot = some t' ∧ t'.recordId = stored.recordId ∧
      ∀ name, stored.valueNamed? name = t.valueBy t.schema name ∧ t'.valueNamed? name = t.valueBy p.schema name := by
  obtain ⟨-, -, -, -, -, hp', hid, hschema⟩ := hp.insert h
  obtain ⟨-, slot, -, rfl, hsets⟩ := hp.insert_eq_ok h
  obtain ⟨q, hq, htuples⟩ := hp'.names_after_reload
  have hstored := (hsets.tuples slot).trans (if_pos rfl)
  obtain ⟨t', ht', hrecord, hvalues, hnames⟩ := htuples slot _ hstored
  refine ⟨slot, q, t', hstored, hid ▸ hschema ▸ hq, ht', hrecord, fun name => ⟨rfl, ?_⟩⟩
  unfold Tuple.valueNamed? Tuple.valueBy Tuple.value?
  rw [hnames, hschema, hvalues]
  rfl

/-! ### Changes -/

theorem Named.sets {entry : Option Tuple} (hn : p.Named) (hsets : Sets slot entry p p')
    (hentry : ∀ t, entry = some t → t.schema.SameNames p.schema) : p'.Named := by
  intro i t ht
  rw [hsets.tuples] at ht
  rw [hsets.schema]
  split at ht
  · exact hentry t ht
  · exact hn i t ht

theorem Named.insert (hn : p.Named) (hp : p.WellFormed) (hnames : t.schema.SameNames p.schema)
    (h : p.insert t = .ok (stored, p')) : p'.Named := by
  obtain ⟨-, slot, -, rfl, hsets⟩ := hp.insert_eq_ok h
  exact hn.sets hsets fun _ heq => Option.some.inj heq ▸ hnames

theorem Named.delete {r : Option RecordId} (hn : p.Named) (hp : p.WellFormed) (h : p.delete r = .ok p') :
    p'.Named := by
  obtain ⟨rid, -, -, -, hsets⟩ := hp.delete_eq_ok h
  exact hn.sets hsets (by simp)

theorem Named.markDirty (hn : p.Named) (txn : TxnId) : (p.markDirty txn).Named := hn

theorem Named.markClean (hn : p.Named) : p.markClean.Named := hn

end HeapPage

end HeapStore
