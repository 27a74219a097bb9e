import HeapStore.Decimal.Style
import HeapStore.Record.ColumnType
import HeapStore.Record.Utf8
import HeapStore.Text.Quoted

/-!
# Values

A double is kept as its 64 bits, so that zeros keep their sign and a value that is no number keeps its
payload. Identity of values (`=`) compares bits; the comparison that the engine offers (`Value.equals`)
compares doubles as numbers.
-/

namespace HeapStore

inductive Value where
  | boolean (b : Bool)
  | integer (n : Int32)
  | bigInt (n : Int64)
  | double (bits : UInt64)
  | string (s : String)
deriving DecidableEq

/-- Comparison of doubles as numbers: no NaN equals anything, and the two zeros are equal. -/
def doubleEquals (a b : UInt64) : Bool :=
  let magnitude (x : UInt64) : Nat := x.toNat % (2048 * Decimal.fractionUnit)
  let isNumber (x : UInt64) : Bool := magnitude x ≤ 2047 * Decimal.fractionUnit
  isNumber a && isNumber b && (a == b || (magnitude a == 0 && magnitude b == 0))

namespace Value

/-- Equality of values as the engine compares them: of one kind, and equal as numbers or texts. -/
def equals : Value → Value → Bool
  | boolean a, boolean b => a == b
  | integer a, integer b => a == b
  | bigInt a, bigInt b => a == b
  | double a, double b => doubleEquals a b
  | string a, string b => a == b
  | _, _ => false

/-- Can the value be stored in a column of the type? A text fits if its bytes do. -/
def fits : Value → ColumnType → Bool
  | boolean _, .boolean => true
  | integer _, .integer => true
  | bigInt _, .bigInt => true
  | double _, .double => true
  | string s, .char capacity => s.utf8ByteSize ≤ capacity.toNat
  | _, _ => false

def integer? : Value → Option Int32
  | integer n => some n
  | _ => none

def string? : Value → Option String
  | string s => some s
  | _ => none

/-! ### Texts -/

def text : Value → String
  | boolean b => toString b
  | integer n => toString n.toInt
  | bigInt n => toString n.toInt
  | double bits => (Decimal.Double.ofBits bits).text .plain
  | string s => s

/-- The value with its kind, a double marked as one and a text quoted. -/
def detail : Value → String
  | boolean b => s!"Boolean({b})"
  | integer n => s!"Integer({n.toInt})"
  | bigInt n => s!"BigInt({n.toInt})"
  | double bits => s!"Double({(Decimal.Double.ofBits bits).text .marked})"
  | string s => s!"String({Text.quote s})"

end Value

end HeapStore
