import Std.Data.ExtTreeMap

/-!
# Names of tables, pages, records and transactions

A table is numbered by the catalog, a page by its table and its place in the table's file, a record by
its page and the slot that holds it. Pages are ordered by table and then by number; the order is total
and its `.eq` is equality (`PageId.instLawfulEqOrd`), so page ids can key ordered maps.

Every name has a short text for messages and a detailed one that spells out its parts.
-/

namespace HeapStore

/-- The number of a table in the catalog. -/
abbrev TableId := Nat

/-- The number of a transaction. -/
abbrev TxnId := Nat

/-- A page: the table that owns it and its place in the table's file. -/
structure PageId where
  table : TableId
  number : Nat
deriving DecidableEq

/-- The place of a stored tuple: a page and a slot of it. -/
structure RecordId where
  page : PageId
  slot : UInt16
deriving DecidableEq

namespace PageId

/-- Pages are compared by table, then by number. -/
instance instOrd : Ord PageId := ⟨compareLex (compareOn table) (compareOn number)⟩

instance instTransOrd : Std.TransOrd PageId :=
  inferInstanceAs (Std.TransCmp (compareLex (compareOn table) (compareOn number)))

instance instLawfulEqOrd : Std.LawfulEqOrd PageId where
  eq_of_compare {a b} h := by
    obtain ⟨h₁, h₂⟩ := Ordering.then_eq_eq.1 (show (compareLex (compareOn table) (compareOn number) a b) = .eq from h)
    cases a; cases b
    simp_all [compareOn]

end PageId

/-! ### Texts -/

/-- Encloses the fields of a detailed text in braces after the name of what they describe. -/
def braced (name fields : String) : String := name ++ " \x7b " ++ fields ++ " \x7d"

def TableId.text (t : TableId) : String := s!"TableId({t})"

def TxnId.text (t : TxnId) : String := s!"Txn({t})"

def TxnId.detail (t : TxnId) : String := s!"TransactionId({t})"

def slotText (s : UInt16) : String := s!"SlotId({s.toNat})"

def PageId.text (p : PageId) : String := s!"PageId({p.table}:{p.number})"

def PageId.detail (p : PageId) : String :=
  braced "PageId" (s!"table_id: {TableId.text p.table}, page_no: {p.number}")

def RecordId.detail (r : RecordId) : String :=
  braced "RecordId" (s!"page_id: {r.page.detail}, slot_id: {slotText r.slot}")

/-- The detailed text of a record id that may be missing. -/
def RecordId.detail? : Option RecordId → String
  | none => "None"
  | some r => s!"Some({r.detail})"

end HeapStore
