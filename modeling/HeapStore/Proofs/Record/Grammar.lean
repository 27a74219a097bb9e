import HeapStore.Proofs.Record.RoundTrip

/-!
# Which bytes are records

A byte string starts with a record of a schema if it is long enough and each text's field, at its offset,
holds a length within the column's capacity and that many bytes of UTF-8 behind it
(`Record.IsRecord`). These strings are read, and no others (`Record.isSome_decodeValues`).

Two strings can be read as the same row: any byte but zero is true, and what stands behind a text is
not looked at. What is written is one form of the row (`Record.canonical`), the same on both
(`Record.encodeValues_decodeValues`). Reading and then writing thus puts a record into that form
(`Tuple.record_grammar`).
-/

namespace HeapStore

/-! ### Bytes of texts -/

namespace Record

/-- Are the bytes the UTF-8 forms of characters, one after the other? -/
def IsUtf8 (bytes : List UInt8) : Prop :=
  ∃ text : List Char, bytes = text.flatMap String.utf8EncodeChar

theorem utf8_ofList (text : List Char) : utf8 (String.ofList text) = text.flatMap String.utf8EncodeChar := by
  rw [utf8, String.toUTF8_eq_toByteArray, String.toByteArray_ofList, List.utf8Encode,
    List.toList_data_toByteArray]

theorem isSome_ofUtf8? {bytes : List UInt8} : (ofUtf8? bytes).isSome = true ↔ IsUtf8 bytes := by
  rw [Option.isSome_iff_exists]
  constructor
  · rintro ⟨s, hs⟩
    refine ⟨s.toList, ?_⟩
    rw [ofUtf8?_eq_some_iff.1 hs, ← utf8_ofList, String.ofList_toList]
  · rintro ⟨text, rfl⟩
    exact ⟨String.ofList text, ofUtf8?_eq_some_iff.2 (utf8_ofList text).symm⟩

/-- The length that stands in front of a text. -/
def textLength (field : List UInt8) : Nat := BigEndian.ofBytes (field.take ColumnType.lengthBytes)

/-- A field that holds a text of at most `capacity` bytes. -/
structure IsText (capacity : Nat) (field : List UInt8) : Prop where
  length_le : textLength field ≤ capacity
  utf8 : IsUtf8 ((field.drop ColumnType.lengthBytes).take (textLength field))

end Record

/-! ### One field -/

namespace ColumnType

/-- Can the bytes be read as a value of the type? Only a text can be malformed. -/
def Reads (type : ColumnType) (field : List UInt8) : Prop :=
  ∀ capacity, type = .char capacity → Record.IsText capacity.toNat field

/-- The form in which the value that the bytes are read as is written: a boolean is zero or one, a text is
followed by zeros. -/
def canonical : ColumnType → List UInt8 → List UInt8
  | .boolean, field => field.map fun b => if b = 0 then 0 else 1
  | .char capacity, field =>
    field.take (lengthBytes + Record.textLength field)
      ++ List.replicate (capacity.toNat - Record.textLength field) 0
  | _, field => field

/-- Is the field written in that form already? -/
def IsCanonical : ColumnType → List UInt8 → Prop
  | .boolean, field => ∀ b ∈ field, b = 0 ∨ b = 1
  | .char _, field => ∀ b ∈ field.drop (lengthBytes + Record.textLength field), b = 0
  | _, _ => True

variable {type : ColumnType} {field : List UInt8}

theorem length_canonical (hlength : field.length = type.width) (hreads : type.Reads field) :
    (type.canonical field).length = type.width := by
  cases type with
  | char capacity =>
    have hfits := (hreads capacity rfl).length_le
    rw [width] at hlength
    rw [canonical, List.length_append, List.length_replicate, List.length_take, width]
    omega
  | boolean => rwa [canonical, List.length_map]
  | integer | bigInt | double => exact hlength

/-- A field is its canonical form exactly if it is written in that form. -/
theorem canonical_eq_iff (hlength : field.length = type.width) (hreads : type.Reads field) :
    type.canonical field = field ↔ type.IsCanonical field := by
  cases type with
  | char capacity =>
    have hfits := (hreads capacity rfl).length_le
    rw [width] at hlength
    have hpadding : (field.drop (lengthBytes + Record.textLength field)).length =
        capacity.toNat - Record.textLength field := by
      rw [List.length_drop]
      omega
    have hsplit : field = field.take (lengthBytes + Record.textLength field)
        ++ field.drop (lengthBytes + Record.textLength field) := (List.take_append_drop _ _).symm
    rw [canonical, IsCanonical]
    conv_lhs => rhs; rw [hsplit]
    rw [List.append_cancel_left_eq, eq_comm, List.eq_replicate_iff, and_iff_right hpadding]
  | boolean =>
    obtain ⟨b, rfl⟩ := List.length_eq_one_iff.1 hlength
    rw [canonical, IsCanonical, List.map_singleton, List.cons_eq_cons]
    by_cases hb : b = 0
    · simp [hb]
    · simp [hb, eq_comm]
  | integer | bigInt | double => exact ⟨fun _ => trivial, fun _ => rfl⟩

end ColumnType

theorem BigEndian.ofBytes_lt (bytes : List UInt8) : ofBytes bytes < Nat.pow 256 bytes.length := by
  rw [← List.reverse_reverse bytes]
  generalize bytes.reverse = rev
  induction rev with
  | nil => exact Nat.one_pos
  | cons b rev ih =>
    have hb : b.toNat < 256 := b.toNat_lt
    have hpow : Nat.pow 256 (rev.reverse.length + 1) = Nat.pow 256 rev.reverse.length * 256 := rfl
    rw [List.reverse_cons, ofBytes_append_singleton, List.length_append, List.length_singleton, hpow]
    omega

namespace Value

variable {type : ColumnType} {field : List UInt8} {v : Value}

theorem isSome_ofField : (ofField type field).isSome = true ↔ type.Reads field := by
  cases type with
  | char capacity =>
    have hreads : (ColumnType.char capacity).Reads field ↔ Record.IsText capacity.toNat field :=
      ⟨fun h => h capacity rfl, by rintro h _ ⟨⟩; exact h⟩
    rw [hreads]
    by_cases hlong : capacity.toNat < Record.textLength field
    · have hnone : ofField (.char capacity) field = none := if_pos hlong
      rw [hnone]
      exact ⟨by simp, fun h => absurd h.length_le (Nat.not_le.2 hlong)⟩
    · have htext : ofField (.char capacity) field =
          (Record.ofUtf8? ((field.drop ColumnType.lengthBytes).take (Record.textLength field))).map string :=
        if_neg hlong
      rw [htext, Option.isSome_map, Record.isSome_ofUtf8?]
      exact ⟨fun h => ⟨Nat.not_lt.1 hlong, h⟩, fun h => h.utf8⟩
  | boolean | integer | bigInt | double => exact ⟨fun _ _ h => by simp at h, fun _ => rfl⟩

theorem encode_ofField_text {capacity : UInt16} {s : String}
    (hlength : field.length = (ColumnType.char capacity).width)
    (h : ofField (.char capacity) field = some (string s)) :
    encode (.char capacity) (string s) = (ColumnType.char capacity).canonical field := by
  rw [ColumnType.width] at hlength
  simp only [ofField] at h
  split at h
  · simp at h
  · next hfits =>
    obtain ⟨_, hs, ⟨⟩⟩ := Option.map_eq_some_iff.1 h
    rw [← Record.textLength] at hs hfits
    have hbytes := Record.ofUtf8?_eq_some_iff.1 hs
    have hsize : s.utf8ByteSize = Record.textLength field := by
      rw [← Record.length_utf8, ← hbytes, List.length_take, List.length_drop]
      omega
    have hprefix : BigEndian.toBytes ColumnType.lengthBytes (Record.textLength field) =
        field.take ColumnType.lengthBytes := by
      have hfour : (field.take ColumnType.lengthBytes).length = ColumnType.lengthBytes := by
        rw [List.length_take]
        omega
      have hread := BigEndian.toBytes_ofBytes (field.take ColumnType.lengthBytes)
      rwa [hfour] at hread
    rw [encode, ColumnType.canonical, hsize, hprefix, ← hbytes, List.take_add]

theorem encode_ofField (hlength : field.length = type.width) (h : ofField type field = some v) :
    v.encode type = type.canonical field := by
  have hread := BigEndian.toBytes_ofBytes field
  have hlt := BigEndian.ofBytes_lt field
  cases type with
  | char capacity =>
    have hv := fits_of_ofField h
    cases v <;> simp [fits] at hv
    exact encode_ofField_text hlength h
  | boolean =>
    obtain rfl := Option.some.inj h
    obtain ⟨b, rfl⟩ := List.length_eq_one_iff.1 hlength
    have hzero : BigEndian.ofBytes [b] = 0 ↔ b = 0 := by
      rw [BigEndian.ofBytes, List.foldl_cons, List.foldl_nil, Nat.zero_mul, Nat.zero_add, ← UInt8.toNat_inj]
      rfl
    rw [encode, ColumnType.canonical, List.map_singleton]
    by_cases hb : BigEndian.ofBytes [b] = 0
    · rw [hb, hzero.1 hb]
      rfl
    · rw [if_neg (mt hzero.2 hb), if_pos (bne_iff_ne.2 hb)]
  | integer =>
    obtain rfl := Option.some.inj h
    rw [hlength] at hread hlt
    have hnum : (UInt32.ofNat (BigEndian.ofBytes field)).toNat = BigEndian.ofBytes field :=
      UInt32.toNat_ofNat_of_lt' hlt
    rw [encode, UInt32.toUInt32_toInt32, hnum]
    exact hread
  | bigInt =>
    obtain rfl := Option.some.inj h
    rw [hlength] at hread hlt
    have hnum : (UInt64.ofNat (BigEndian.ofBytes field)).toNat = BigEndian.ofBytes field :=
      UInt64.toNat_ofNat_of_lt' hlt
    rw [encode, UInt64.toUInt64_toInt64, hnum]
    exact hread
  | double =>
    obtain rfl := Option.some.inj h
    rw [hlength] at hread hlt
    have hnum : (UInt64.ofNat (BigEndian.ofBytes field)).toNat = BigEndian.ofBytes field :=
      UInt64.toNat_ofNat_of_lt' hlt
    rw [encode, hnum]
    exact hread

theorem decode_eq_some_iff {bytes rest : List UInt8} :
    decode type bytes = some (v, rest) ↔
      type.width ≤ bytes.length ∧ ofField type (bytes.take type.width) = some v ∧
        rest = bytes.drop type.width := by
  have hshort : (bytes.take type.width).length < type.width ↔ bytes.length < type.width := by
    rw [List.length_take]
    omega
  simp only [decode, hshort]
  split
  · next hlt => exact ⟨by simp, fun h => absurd hlt (Nat.not_lt.2 h.1)⟩
  · next hle =>
    rw [Option.map_eq_some_iff]
    constructor
    · rintro ⟨_, hread, ⟨⟩⟩
      exact ⟨Nat.not_lt.1 hle, hread, rfl⟩
    · rintro ⟨-, hread, rfl⟩
      exact ⟨v, hread, rfl⟩

end Value

/-! ### One field after the other -/

namespace Record

/-- The bytes of the field of column `i`, which is `c`. -/
def fieldAt (columns : List Column) (bytes : List UInt8) (i : Nat) (c : Column) : List UInt8 :=
  (bytes.drop (widthOf (columns.take i))).take c.type.width

/-- Does a record of the columns stand at the front of the bytes? -/
structure IsRecord (columns : List Column) (bytes : List UInt8) : Prop where
  length_ge : widthOf columns ≤ bytes.length
  texts : ∀ i c capacity, columns[i]? = some c → c.type = .char capacity →
    IsText capacity.toNat (fieldAt columns bytes i c)

/-- The record that stands at the front of the bytes, in the form in which it is written. -/
def canonical : List Column → List UInt8 → List UInt8
  | [], _ => []
  | c :: columns, bytes =>
    c.type.canonical (bytes.take c.type.width) ++ canonical columns (bytes.drop c.type.width)

variable {c : Column} {columns : List Column} {bytes rest : List UInt8} {values : List Value}

theorem fieldAt_cons_succ (i : Nat) (c' : Column) :
    fieldAt (c :: columns) bytes (i + 1) c' = fieldAt columns (bytes.drop c.type.width) i c' := by
  rw [fieldAt, fieldAt, List.take_succ_cons, widthOf, List.drop_drop]

theorem isRecord_cons :
    IsRecord (c :: columns) bytes ↔
      c.type.width ≤ bytes.length ∧ c.type.Reads (bytes.take c.type.width) ∧
        IsRecord columns (bytes.drop c.type.width) := by
  constructor
  · rintro ⟨hlength, htexts⟩
    rw [widthOf] at hlength
    refine ⟨by omega, fun capacity => htexts 0 c capacity rfl, by rw [List.length_drop]; omega, ?_⟩
    intro i c' capacity hc htype
    rw [← fieldAt_cons_succ]
    exact htexts (i + 1) c' capacity hc htype
  · rintro ⟨hlength, hfirst, hlengths, htexts⟩
    rw [List.length_drop] at hlengths
    refine ⟨by rw [widthOf]; omega, fun i c' capacity hc htype => ?_⟩
    cases i with
    | zero =>
      obtain rfl := Option.some.inj hc
      exact hfirst capacity htype
    | succ i =>
      rw [fieldAt_cons_succ]
      exact htexts i c' capacity hc htype

theorem isSome_decodeValues : (decodeValues columns bytes).isSome = true ↔ IsRecord columns bytes := by
  induction columns generalizing bytes with
  | nil => exact ⟨fun _ => ⟨Nat.zero_le _, by simp⟩, fun _ => rfl⟩
  | cons c columns ih =>
    rw [isRecord_cons, ← Value.isSome_ofField, ← ih, decodeValues]
    constructor
    · intro h
      split at h
      · simp at h
      · next v rest hv =>
        obtain ⟨hlength, hread, rfl⟩ := Value.decode_eq_some_iff.1 hv
        split at h
        · simp at h
        · next hrest => exact ⟨hlength, by rw [hread]; rfl, by rw [hrest]; rfl⟩
    · rintro ⟨hlength, hread, hrest⟩
      obtain ⟨v, hv⟩ := Option.isSome_iff_exists.1 hread
      obtain ⟨⟨values, rest⟩, hvalues⟩ := Option.isSome_iff_exists.1 hrest
      simp only [Value.decode_eq_some_iff.2 ⟨hlength, hv, rfl⟩, hvalues, Option.isSome_some]

/-- Reading takes the columns' widths off the front, and writing what was read puts the record into its
canonical form. -/
theorem encodeValues_decodeValues (h : decodeValues columns bytes = some (values, rest)) :
    rest = bytes.drop (widthOf columns) ∧ encodeValues columns values = canonical columns bytes := by
  induction columns generalizing bytes values with
  | nil =>
    obtain ⟨rfl, rfl⟩ := Prod.mk.inj (Option.some.inj h)
    exact ⟨rfl, rfl⟩
  | cons c columns ih =>
    simp only [decodeValues] at h
    split at h
    · simp at h
    · next v _ hv =>
      split at h
      · simp at h
      · next hvalues =>
        obtain ⟨rfl, rfl⟩ := Prod.mk.inj (Option.some.inj h)
        obtain ⟨hlength, hread, rfl⟩ := Value.decode_eq_some_iff.1 hv
        obtain ⟨hrest, hencode⟩ := ih hvalues
        have hfield : (bytes.take c.type.width).length = c.type.width := List.length_take_of_le hlength
        rw [widthOf, encodeValues, canonical, hencode, Value.encode_ofField hfield hread, ← List.drop_drop]
        exact ⟨hrest, rfl⟩

/-- The canonical form of a record depends on the record's own bytes only. -/
theorem canonical_take (columns : List Column) (bytes : List UInt8) :
    canonical columns (bytes.take (widthOf columns)) = canonical columns bytes := by
  induction columns generalizing bytes with
  | nil => rfl
  | cons c columns ih =>
    have hfirst : (bytes.take (c.type.width + widthOf columns)).take c.type.width = bytes.take c.type.width := by
      rw [List.take_take, Nat.min_eq_left (by omega)]
    have hrest : (bytes.take (c.type.width + widthOf columns)).drop c.type.width =
        (bytes.drop c.type.width).take (widthOf columns) := by
      rw [List.drop_take, Nat.add_sub_cancel_left]
    rw [canonical, canonical, widthOf, hfirst, hrest, ih]

theorem length_canonical (h : IsRecord columns bytes) : (canonical columns bytes).length = widthOf columns := by
  induction columns generalizing bytes with
  | nil => rfl
  | cons c columns ih =>
    obtain ⟨hlength, hfirst, hrest⟩ := isRecord_cons.1 h
    have hfield : (bytes.take c.type.width).length = c.type.width := List.length_take_of_le hlength
    rw [canonical, List.length_append, ColumnType.length_canonical hfield hfirst, ih hrest, widthOf]

theorem canonical_eq_take_iff (h : IsRecord columns bytes) :
    canonical columns bytes = bytes.take (widthOf columns) ↔
      ∀ i (c : Column), columns[i]? = some c → c.type.IsCanonical (fieldAt columns bytes i c) := by
  induction columns generalizing bytes with
  | nil => simp [canonical, widthOf]
  | cons c columns ih =>
    obtain ⟨hlength, hfirst, hrest⟩ := isRecord_cons.1 h
    have hfield : (bytes.take c.type.width).length = c.type.width := List.length_take_of_le hlength
    have hform := ColumnType.canonical_eq_iff hfield hfirst
    have hsame : (c.type.canonical (bytes.take c.type.width)).length = (bytes.take c.type.width).length := by
      rw [ColumnType.length_canonical hfield hfirst, hfield]
    rw [canonical, widthOf, List.take_add]
    constructor
    · intro heq i c' hc
      obtain ⟨hhead, htail⟩ := List.append_inj heq hsame
      cases i with
      | zero =>
        obtain rfl := Option.some.inj hc
        exact hform.1 hhead
      | succ i =>
        rw [fieldAt_cons_succ]
        exact (ih hrest).1 htail i c' hc
    · intro hall
      have htail : canonical columns (bytes.drop c.type.width) = (bytes.drop c.type.width).take (widthOf columns) :=
        (ih hrest).2 fun i c' hc => fieldAt_cons_succ i c' ▸ hall (i + 1) c' hc
      rw [hform.2 (hall 0 c rfl), htail]

end Record

/-! ### Rows -/

namespace Tuple

variable {s : Schema} {bytes rest : List UInt8} {t : Tuple}

theorem isSome_decode : (decode s bytes).isSome = true ↔ Record.IsRecord s.columns bytes := by
  rw [← Record.isSome_decodeValues, Option.isSome_iff_exists, Option.isSome_iff_exists]
  constructor
  · rintro ⟨⟨t, rest⟩, h⟩
    exact ⟨(t.values, rest), (decode_eq_some_iff.1 h).2.2⟩
  · rintro ⟨⟨values, rest⟩, h⟩
    exact ⟨(⟨s, values, none, Record.allFit_of_decodeValues h⟩, rest), decode_eq_some_iff.2 ⟨rfl, rfl, h⟩⟩

theorem encode_of_decode (h : decode s bytes = some (t, rest)) :
    t.encode = Record.canonical s.columns bytes := by
  obtain ⟨hschema, -, hread⟩ := decode_eq_some_iff.1 h
  rw [encode, hschema]
  exact (Record.encodeValues_decodeValues hread).2

/-- **Which byte strings are records, and what becomes of them.** A row is read from the strings that start
with a record, and from no others. It takes the record, exactly as many bytes as the schema is wide, off the
front; its values are ones that the schema accepts; and it is written as the record's canonical form, with
booleans that are zero or one and zeros behind each text. -/
theorem record_grammar (s : Schema) (bytes : List UInt8) :
    ((∃ t rest, decode s bytes = some (t, rest)) ↔ Record.IsRecord s.columns bytes) ∧
      ∀ t rest, decode s bytes = some (t, rest) →
        bytes = bytes.take s.width ++ rest ∧ (bytes.take s.width).length = s.width ∧
          ofValues s t.values = .ok t ∧ t.encode = Record.canonical s.columns (bytes.take s.width) := by
  constructor
  · rw [← isSome_decode, Option.isSome_iff_exists, Prod.exists]
  · intro t rest h
    obtain ⟨hschema, hrecord, hread⟩ := decode_eq_some_iff.1 h
    obtain ⟨hrest, -⟩ := Record.encodeValues_decodeValues hread
    have hlong := (isSome_decode.1 (Option.isSome_iff_exists.2 ⟨_, h⟩)).length_ge
    refine ⟨?_, List.length_take_of_le hlong, ofValues_eq_ok_iff.2 ⟨hschema, rfl, hrecord⟩, ?_⟩
    · rw [hrest, ← Schema.width, List.take_append_drop]
    · rw [encode_of_decode h, Schema.width, Record.canonical_take]

/-- A boolean and a text of at most four bytes. -/
def flagged : Schema := ⟨[⟨"b", .boolean⟩, ⟨"c", .char 4⟩]⟩

/-- A true byte other than one, a text of one character in two bytes with two more bytes behind it, and one byte
behind the record. -/
def loose : List UInt8 := [7, 0, 0, 0, 2, 0xc3, 0xa9, 0xff, 0x41, 9]

/-- The loose record is read and written in its canonical form; with a length that cuts the character, it is
not read. -/
theorem record_grammar_of_loose :
    (∃ t, decode flagged loose = some (t, [9]) ∧ t.values = [.boolean true, .string "é"] ∧
        ofValues flagged t.values = .ok t ∧ t.encode = [1, 0, 0, 0, 2, 0xc3, 0xa9, 0, 0]) ∧
      ¬ Record.IsRecord flagged.columns (loose.set 4 1) := by
  refine ⟨?_, ?_⟩
  · obtain ⟨t, ht⟩ : ∃ t, decode flagged loose = some (t, [9]) ∧ t.values = [.boolean true, .string "é"] :=
      ⟨⟨flagged, [.boolean true, .string "é"], none, by decide⟩,
        decode_eq_some_iff.2 ⟨rfl, rfl, by decide +kernel⟩, rfl⟩
    obtain ⟨-, -, haccepted, hencode⟩ := (record_grammar flagged loose).2 t [9] ht.1
    exact ⟨t, ht.1, ht.2, haccepted, hencode.trans (by decide)⟩
  · intro h
    obtain ⟨t, rest, ht⟩ := (record_grammar flagged (loose.set 4 1)).1.2 h
    have hnone : decode flagged (loose.set 4 1) = none := by decide +kernel
    rw [hnone] at ht
    simp at ht

end Tuple

end HeapStore
