/-!
# Column types

Each type has a fixed width in bytes, so all records of a table are equally wide.
-/

namespace HeapStore

inductive ColumnType where
  | boolean
  /-- 32 bits, signed. -/
  | integer
  /-- 64 bits, signed. -/
  | bigInt
  /-- A 64-bit binary floating-point number. -/
  | double
  /-- A text of at most `capacity` bytes. -/
  | char (capacity : UInt16)
deriving DecidableEq

namespace ColumnType

/-- The bytes in front of a text that hold its length. -/
def lengthBytes : Nat := 4

/-- The bytes that a value of the type takes in a record. -/
def width : ColumnType → Nat
  | boolean => 1
  | integer => 4
  | bigInt => 8
  | double => 8
  | char capacity => lengthBytes + capacity.toNat

def text : ColumnType → String
  | boolean => "BOOLEAN"
  | integer => "INTEGER"
  | bigInt => "BIGINT"
  | double => "DOUBLE"
  | char capacity => s!"CHAR({capacity.toNat})"

def detail : ColumnType → String
  | boolean => "Boolean"
  | integer => "Integer"
  | bigInt => "BigInt"
  | double => "Double"
  | char capacity => s!"Char({capacity.toNat})"

end ColumnType

end HeapStore
