import HeapStore.Record.BigEndian
import HeapStore.Record.Tuple

/-!
# Records

A record is the byte form of a tuple: its values in column order, each in as many bytes as its column is
wide. Numbers are big-endian; a text is its length in four bytes, its UTF-8 bytes, and zeros up to the
column's capacity. Decoding takes a record off the front of a byte string and returns what follows it.
-/

namespace HeapStore

namespace Value

/-- The bytes of a value in a column of the type. A text in a column for something else is written as
zeros; no tuple holds one. -/
def encode : ColumnType → Value → List UInt8
  | _, boolean b => [if b then 1 else 0]
  | _, integer n => BigEndian.toBytes 4 n.toUInt32.toNat
  | _, bigInt n => BigEndian.toBytes 8 n.toUInt64.toNat
  | _, double bits => BigEndian.toBytes 8 bits.toNat
  | .char capacity, string s =>
    BigEndian.toBytes ColumnType.lengthBytes s.utf8ByteSize ++ Record.utf8 s
      ++ List.replicate (capacity.toNat - s.utf8ByteSize) 0
  | type, string _ => List.replicate type.width 0

/-- The value whose bytes, as many as the type is wide, these are. Any byte but zero is true. -/
def ofField (type : ColumnType) (field : List UInt8) : Option Value :=
  match type with
  | .boolean => some (boolean (BigEndian.ofBytes field != 0))
  | .integer => some (integer (UInt32.ofNat (BigEndian.ofBytes field)).toInt32)
  | .bigInt => some (bigInt (UInt64.ofNat (BigEndian.ofBytes field)).toInt64)
  | .double => some (double (UInt64.ofNat (BigEndian.ofBytes field)))
  | .char capacity =>
    let length := BigEndian.ofBytes (field.take ColumnType.lengthBytes)
    if capacity.toNat < length then none
    else (Record.ofUtf8? ((field.drop ColumnType.lengthBytes).take length)).map string

/-- Takes a value of the type off the front. -/
def decode (type : ColumnType) (bytes : List UInt8) : Option (Value × List UInt8) :=
  let field := bytes.take type.width
  if field.length < type.width then none
  else (ofField type field).map (·, bytes.drop type.width)

theorem fits_of_ofField {type : ColumnType} {field : List UInt8} {v : Value}
    (h : ofField type field = some v) : v.fits type = true := by
  cases type with
  | char capacity =>
    simp only [ofField] at h
    split at h
    · simp at h
    · obtain ⟨s, hs, rfl⟩ := Option.map_eq_some_iff.1 h
      have hl := congrArg List.length (Record.ofUtf8?_eq_some_iff.1 hs)
      rw [Record.length_utf8, List.length_take] at hl
      simp only [fits, decide_eq_true_eq]
      omega
  | _ =>
    obtain rfl := Option.some.inj h
    rfl

theorem fits_of_decode {type : ColumnType} {bytes rest : List UInt8} {v : Value}
    (h : decode type bytes = some (v, rest)) : v.fits type = true := by
  simp only [decode] at h
  split at h
  · simp at h
  · obtain ⟨w, hw, hv⟩ := Option.map_eq_some_iff.1 h
    obtain ⟨rfl, -⟩ := Prod.mk.inj hv
    exact fits_of_ofField hw

end Value

namespace Record

/-- The values of the columns, one after the other. -/
def encodeValues : List Column → List Value → List UInt8
  | c :: columns, v :: values => v.encode c.type ++ encodeValues columns values
  | _, _ => []

/-- Takes one value for each column off the front. -/
def decodeValues : List Column → List UInt8 → Option (List Value × List UInt8)
  | [], bytes => some ([], bytes)
  | c :: columns, bytes =>
    match Value.decode c.type bytes with
    | none => none
    | some (v, rest) =>
      match decodeValues columns rest with
      | none => none
      | some (values, rest) => some (v :: values, rest)

/-- What was decoded fits the columns. -/
theorem allFit_of_decodeValues {columns : List Column} {bytes rest : List UInt8} {values : List Value}
    (h : decodeValues columns bytes = some (values, rest)) : allFit columns values = true := by
  induction columns generalizing bytes values with
  | nil =>
    obtain ⟨rfl, rfl⟩ := Prod.mk.inj (Option.some.inj h)
    rfl
  | cons c columns ih =>
    simp only [decodeValues] at h
    split at h
    · simp at h
    · next hv =>
      split at h
      · simp at h
      · next hr =>
        obtain ⟨rfl, rfl⟩ := Prod.mk.inj (Option.some.inj h)
        simp [allFit, Value.fits_of_decode hv, ih hr]

end Record

namespace Tuple

/-- The record of a tuple. -/
def encode (t : Tuple) : List UInt8 := Record.encodeValues t.schema.columns t.values

/-- Takes a record of the schema off the front; the tuple is stored nowhere yet. -/
def decode (s : Schema) (bytes : List UInt8) : Option (Tuple × List UInt8) :=
  match h : Record.decodeValues s.columns bytes with
  | none => none
  | some (values, rest) => some (⟨s, values, none, Record.allFit_of_decodeValues h⟩, rest)

theorem decode_eq_some_iff {s : Schema} {bytes rest : List UInt8} {t : Tuple} :
    decode s bytes = some (t, rest) ↔
      t.schema = s ∧ t.recordId = none ∧ Record.decodeValues s.columns bytes = some (t.values, rest) := by
  unfold decode
  split
  · next h => simp [h]
  · next values rest' h =>
    obtain ⟨s', values', r, ha⟩ := t
    simp only [Option.some.injEq, Prod.mk.injEq, h]
    constructor
    · rintro ⟨ht, rfl⟩
      cases ht
      exact ⟨rfl, rfl, rfl, rfl⟩
    · rintro ⟨rfl, rfl, rfl, rfl⟩
      exact ⟨rfl, rfl⟩

end Tuple

end HeapStore
