import HeapStore.Record.Codec
import Mathlib.Data.List.Forall2

/-!
# Records are read as they were written

A value that fits its column is written in exactly as many bytes as the column is wide
(`Value.length_encode`), and reading takes exactly these bytes off the front and gives the value back,
whatever follows (`Value.decode_encode`). Column after column, the same holds of records
(`Tuple.length_encode`, `Tuple.decode_encode`), and of records that stand one after the other
(`Tuple.record_round_trip`).

A record is written under the tuple's own schema and may be read under another one that matches it:
only the types of the columns count, not their names.
-/

namespace HeapStore

/-! ### Big-endian numbers -/

theorem BigEndian.ofBytes_toBytes (w n : Nat) : ofBytes (toBytes w n) = n % Nat.pow 256 w := by
  induction w generalizing n with
  | zero => simp [toBytes, ofBytes, Nat.pow, Nat.mod_one]
  | succ w ih =>
    have hbyte : (UInt8.ofNat n).toNat = n % 256 := UInt8.toNat_ofNat'
    have hpow : Nat.pow 256 (w + 1) = 256 * Nat.pow 256 w := Nat.mul_comm _ _
    rw [toBytes, ofBytes_append_singleton, ih, hbyte, hpow, Nat.mod_mul, Nat.mul_comm, Nat.add_comm]

theorem BigEndian.ofBytes_toBytes_of_lt {w n : Nat} (h : n < Nat.pow 256 w) :
    ofBytes (toBytes w n) = n := by
  rw [ofBytes_toBytes, Nat.mod_eq_of_lt h]

/-! ### Values -/

namespace Value

theorem length_encode {type : ColumnType} {v : Value} (h : v.fits type = true) :
    (v.encode type).length = type.width := by
  cases type <;> cases v <;> simp [fits] at h <;> simp [encode, ColumnType.width]
  next capacity s =>
    have hutf8 := Record.length_utf8 s
    omega

theorem ofField_text {capacity : UInt16} {s : String} (h : s.utf8ByteSize ≤ capacity.toNat) :
    ofField (.char capacity) (encode (.char capacity) (string s)) = some (string s) := by
  have hcap : capacity.toNat < 65536 := capacity.toNat_lt
  have hlen : (BigEndian.toBytes ColumnType.lengthBytes s.utf8ByteSize).length = ColumnType.lengthBytes :=
    BigEndian.length_toBytes _ _
  have hnum :
      BigEndian.ofBytes (BigEndian.toBytes ColumnType.lengthBytes s.utf8ByteSize) = s.utf8ByteSize := by
    have hpow : Nat.pow 256 ColumnType.lengthBytes = 4294967296 := rfl
    exact BigEndian.ofBytes_toBytes_of_lt (by omega)
  simp only [ofField, encode, List.append_assoc]
  rw [List.take_left' hlen, List.drop_left' hlen, hnum, if_neg (by omega),
    List.take_left' (Record.length_utf8 s), Record.ofUtf8?_utf8, Option.map_some]

theorem ofField_encode {type : ColumnType} {v : Value} (h : v.fits type = true) :
    ofField type (v.encode type) = some v := by
  cases type with
  | char capacity =>
    cases v <;> simp [fits] at h
    exact ofField_text h
  | boolean =>
    cases v <;> simp [fits] at h
    next b => cases b <;> rfl
  | integer =>
    cases v <;> simp [fits] at h
    next n =>
      have hn : n.toUInt32.toNat < Nat.pow 256 4 := n.toUInt32.toNat_lt
      simp only [ofField, encode, BigEndian.ofBytes_toBytes_of_lt hn, UInt32.ofNat_toNat,
        Int32.toInt32_toUInt32]
  | bigInt =>
    cases v <;> simp [fits] at h
    next n =>
      have hn : n.toUInt64.toNat < Nat.pow 256 8 := n.toUInt64.toNat_lt
      simp only [ofField, encode, BigEndian.ofBytes_toBytes_of_lt hn, UInt64.ofNat_toNat,
        Int64.toInt64_toUInt64]
  | double =>
    cases v <;> simp [fits] at h
    next bits =>
      have hn : bits.toNat < Nat.pow 256 8 := bits.toNat_lt
      simp only [ofField, encode, BigEndian.ofBytes_toBytes_of_lt hn, UInt64.ofNat_toNat]

theorem decode_encode {type : ColumnType} {v : Value} (h : v.fits type = true) (rest : List UInt8) :
    decode type (v.encode type ++ rest) = some (v, rest) := by
  have hlen := length_encode h
  rw [decode, List.take_left' hlen, List.drop_left' hlen]
  simp only [hlen, Nat.lt_irrefl, if_false, ofField_encode h, Option.map_some]

end Value

/-! ### Rows -/

namespace Record

variable {columns columns' : List Column} {values : List Value}

/-- Columns of the same types in the same order, whatever their names. -/
theorem forall₂_type (h : columns.map (·.type) = columns'.map (·.type)) :
    List.Forall₂ (fun c c' => c.type = c'.type) columns columns' := by
  rwa [← List.forall₂_eq_eq_eq, List.forall₂_map_left_iff, List.forall₂_map_right_iff] at h

theorem widthOf_congr (h : columns.map (·.type) = columns'.map (·.type)) :
    widthOf columns = widthOf columns' := by
  have hall := forall₂_type h
  clear h
  induction hall with
  | nil => rfl
  | cons htype hrest ih => rw [widthOf, widthOf, htype, ih]

theorem allFit_congr (h : columns.map (·.type) = columns'.map (·.type)) (values : List Value) :
    allFit columns values = allFit columns' values := by
  have hall := forall₂_type h
  clear h
  induction hall generalizing values with
  | nil => rfl
  | cons htype hrest ih => cases values with
    | nil => rfl
    | cons v values => rw [allFit, allFit, htype, ih]

theorem encodeValues_congr (h : columns.map (·.type) = columns'.map (·.type)) (values : List Value) :
    encodeValues columns values = encodeValues columns' values := by
  have hall := forall₂_type h
  clear h
  induction hall generalizing values with
  | nil => rfl
  | cons htype hrest ih => cases values with
    | nil => rfl
    | cons v values => rw [encodeValues, encodeValues, htype, ih]

theorem length_encodeValues (h : allFit columns values = true) :
    (encodeValues columns values).length = widthOf columns := by
  induction columns generalizing values with
  | nil => cases values <;> rfl
  | cons c columns ih => cases values with
    | nil => simp [allFit] at h
    | cons v values =>
      obtain ⟨hv, hrest⟩ := Bool.and_eq_true_iff.1 h
      rw [encodeValues, List.length_append, Value.length_encode hv, ih hrest, widthOf]

theorem decodeValues_encodeValues (h : allFit columns values = true) (rest : List UInt8) :
    decodeValues columns (encodeValues columns values ++ rest) = some (values, rest) := by
  induction columns generalizing values with
  | nil => cases values with
    | nil => rfl
    | cons v values => simp [allFit] at h
  | cons c columns ih => cases values with
    | nil => simp [allFit] at h
    | cons v values =>
      obtain ⟨hv, hrest⟩ := Bool.and_eq_true_iff.1 h
      rw [encodeValues, List.append_assoc, decodeValues, Value.decode_encode hv]
      simp only [ih hrest]

end Record

/-! ### Tuples -/

theorem Schema.sameTypes_iff {s s' : Schema} :
    s.sameTypes s' = true ↔ s.columns.map (·.type) = s'.columns.map (·.type) := by
  rw [sameTypes, beq_iff_eq]

theorem Schema.width_of_sameTypes {s s' : Schema} (h : s.sameTypes s' = true) : s.width = s'.width :=
  Record.widthOf_congr (sameTypes_iff.1 h)

namespace Tuple

theorem length_encode (t : Tuple) : t.encode.length = t.schema.width :=
  Record.length_encodeValues t.accepted

/-- A tuple's record, read under a schema of the same types, gives its values back. -/
theorem decode_encode {s : Schema} {t : Tuple} (h : t.schema.sameTypes s = true) (rest : List UInt8) :
    ∃ t', decode s (t.encode ++ rest) = some (t', rest) ∧
      t'.schema = s ∧ t'.values = t.values ∧ t'.recordId = none := by
  have htypes := Schema.sameTypes_iff.1 h
  have hfit : allFit s.columns t.values = true := Record.allFit_congr htypes t.values ▸ t.accepted
  refine ⟨⟨s, t.values, none, hfit⟩, decode_eq_some_iff.2 ⟨rfl, rfl, ?_⟩, rfl, rfl, rfl⟩
  rw [encode, Record.encodeValues_congr htypes]
  exact Record.decodeValues_encodeValues hfit rest

/-! ### Records one after the other -/

/-- Takes that many records of the schema off the front. -/
def decodeMany (s : Schema) : Nat → List UInt8 → Option (List Tuple × List UInt8)
  | 0, bytes => some ([], bytes)
  | n + 1, bytes =>
    match decode s bytes with
    | none => none
    | some (t, rest) =>
      match decodeMany s n rest with
      | none => none
      | some (ts, rest) => some (t :: ts, rest)

variable {s : Schema} {values : List Value} {t : Tuple}

theorem ofValues_eq_ok_iff :
    ofValues s values = .ok t ↔ t.schema = s ∧ t.values = values ∧ t.recordId = none := by
  obtain ⟨schema, values', recordId, haccepted⟩ := t
  unfold ofValues
  split
  · next h =>
    simp only [Except.ok.injEq, mk.injEq]
    constructor
    · rintro ⟨rfl, rfl, rfl⟩
      exact ⟨rfl, rfl, rfl⟩
    · rintro ⟨rfl, rfl, rfl⟩
      exact ⟨rfl, rfl, rfl⟩
  · next h =>
    refine ⟨by simp, ?_⟩
    rintro ⟨rfl, rfl, -⟩
    exact absurd haccepted h

theorem decode_encode_self (hschema : t.schema = s) (hrecord : t.recordId = none) (rest : List UInt8) :
    decode s (t.encode ++ rest) = some (t, rest) := by
  subst hschema
  exact decode_eq_some_iff.2 ⟨rfl, hrecord, Record.decodeValues_encodeValues t.accepted rest⟩

theorem values_eq_of_encode_eq {t' : Tuple} (hschema : t.schema = t'.schema) (h : t.encode = t'.encode) :
    t.values = t'.values := by
  have hread := Record.decodeValues_encodeValues t.accepted []
  have hread' := Record.decodeValues_encodeValues t'.accepted []
  have hbytes : Record.encodeValues t'.schema.columns t.values =
      Record.encodeValues t'.schema.columns t'.values := by
    rw [← hschema]
    exact h.trans (by rw [encode, hschema])
  rw [hschema, hbytes, hread'] at hread
  exact (Prod.mk.inj (Option.some.inj hread)).1.symm

theorem decodeMany_flatMap_encode {ts : List Tuple} (h : ∀ t ∈ ts, t.schema = s ∧ t.recordId = none)
    (rest : List UInt8) : decodeMany s ts.length (ts.flatMap encode ++ rest) = some (ts, rest) := by
  induction ts with
  | nil => rfl
  | cons t ts ih =>
    obtain ⟨hschema, hrecord⟩ := h t List.mem_cons_self
    have hlater := ih fun t' ht' => h t' (List.mem_cons_of_mem t ht')
    rw [List.length_cons, List.flatMap_cons, List.append_assoc, decodeMany, decode_encode_self hschema hrecord]
    simp only [hlater]

/-- **Records are read as they were written.** The record of a row fills exactly the width of its schema.
Read with anything behind it, it gives the row back to the last bit, stored nowhere, and leaves what is
behind it. So rows that differ have records that differ, and records that stand one after the other are read
one by one. -/
theorem record_round_trip (s : Schema) :
    (∀ values t, ofValues s values = .ok t →
      t.encode.length = s.width ∧ t.values = values ∧ t.recordId = none ∧
        ∀ rest, decode s (t.encode ++ rest) = some (t, rest)) ∧
      (∀ values values' t t', ofValues s values = .ok t → ofValues s values' = .ok t' → values ≠ values' →
        t.encode ≠ t'.encode) ∧
      ∀ rows ts, List.Forall₂ (fun values t => ofValues s values = .ok t) rows ts → ∀ rest,
        decodeMany s rows.length (ts.flatMap encode ++ rest) = some (ts, rest) ∧ ts.map (·.values) = rows := by
  refine ⟨fun values t h => ?_, fun values values' t t' h h' hne => ?_, fun rows ts h rest => ?_⟩
  · obtain ⟨rfl, rfl, hrecord⟩ := ofValues_eq_ok_iff.1 h
    exact ⟨t.length_encode, rfl, hrecord, fun rest => decode_encode_self rfl hrecord rest⟩
  · obtain ⟨hschema, rfl, -⟩ := ofValues_eq_ok_iff.1 h
    obtain ⟨hschema', rfl, -⟩ := ofValues_eq_ok_iff.1 h'
    exact fun hsame => hne (values_eq_of_encode_eq (hschema.trans hschema'.symm) hsame)
  · have hts : ts.map (·.values) = rows ∧ ∀ t ∈ ts, t.schema = s ∧ t.recordId = none := by
      induction h with
      | nil => exact ⟨rfl, by simp⟩
      | cons hfirst hrest ih =>
        obtain ⟨hschema, hvalues, hrecord⟩ := ofValues_eq_ok_iff.1 hfirst
        exact ⟨by rw [List.map_cons, hvalues, ih.1], List.forall_mem_cons.2 ⟨⟨hschema, hrecord⟩, ih.2⟩⟩
    refine ⟨?_, hts.1⟩
    rw [h.length_eq]
    exact decodeMany_flatMap_encode hts.2 rest

/-- One column of each type. -/
def kinds : Schema :=
  ⟨[⟨"b", .boolean⟩, ⟨"i", .integer⟩, ⟨"l", .bigInt⟩, ⟨"d", .double⟩, ⟨"c", .char 6⟩]⟩

/-- The lowest numbers, no number with a sign and a payload, and a text of three bytes. -/
def lowest : Tuple where
  schema := kinds
  values := [.boolean true, .integer (-2147483648), .bigInt (-9223372036854775808), .double 0xfff8000000000001,
    .string "né"]
  recordId := none
  accepted := by decide

/-- The highest numbers, the zero with a sign, and a text that fills its column. -/
def highest : Tuple where
  schema := kinds
  values := [.boolean false, .integer 2147483647, .bigInt 9223372036854775807, .double 0x8000000000000000,
    .string "ABCDEF"]
  recordId := none
  accepted := by decide

/-- Both rows, one after the other, with three bytes behind them. -/
theorem record_round_trip_of_limits :
    (ofValues kinds lowest.values = .ok lowest ∧ ofValues kinds highest.values = .ok highest ∧
        lowest.values ≠ highest.values) ∧
      lowest.encode.length = 31 ∧ lowest.encode ≠ highest.encode ∧
      decode kinds (lowest.encode ++ [1]) = some (lowest, [1]) ∧
      decodeMany kinds 2 (lowest.encode ++ (highest.encode ++ [1, 2, 3])) = some ([lowest, highest], [1, 2, 3]) := by
  have hlowest : ofValues kinds lowest.values = .ok lowest := ofValues_eq_ok_iff.2 ⟨rfl, rfl, rfl⟩
  have hhighest : ofValues kinds highest.values = .ok highest := ofValues_eq_ok_iff.2 ⟨rfl, rfl, rfl⟩
  have hne : lowest.values ≠ highest.values := by decide
  obtain ⟨hone, hdiffer, hmany⟩ := record_round_trip kinds
  obtain ⟨hlength, -, -, hread⟩ := hone _ _ hlowest
  obtain ⟨hboth, -⟩ := hmany [lowest.values, highest.values] [lowest, highest]
    (.cons hlowest (.cons hhighest .nil)) [1, 2, 3]
  rw [List.flatMap_cons, List.flatMap_cons, List.flatMap_nil, List.append_nil, List.append_assoc] at hboth
  exact ⟨⟨hlowest, hhighest, hne⟩, hlength, hdiffer _ _ _ _ hlowest hhighest hne, hread [1], hboth⟩

end Tuple

end HeapStore
