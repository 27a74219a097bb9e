/-!
# The shortest decimal that reads back

A reader that rounds to nearest takes a whole interval of reals to one binary floating-point number: from
half-way to the number below up to half-way to the number above, ends included when the mantissa is
even. Among the decimals `d * 10 ^ k` in that interval, `Binary.shortest` picks one of the greatest `k`,
hence of the fewest digits, and among those the nearest to the number; of two equally near ones it takes
the greater.

All is computed in natural numbers: on the grid of the multiples of `10 ^ k` only the two neighbours of the
number can lie in the interval without a coarser grid having a point there too.
-/

namespace HeapStore.Decimal

/-- The decimal `significand * 10 ^ exponent`. -/
structure Digits where
  significand : Nat
  exponent : Int
deriving DecidableEq

/-- The positive number `mantissa * 2 ^ exponent`. The number below it lies half as far away as the one
above it if `narrowBelow` holds. -/
structure Binary where
  mantissa : Nat
  exponent : Int
  narrowBelow : Bool
deriving DecidableEq

namespace Binary

/-- The number itself as a decimal. -/
def exact (b : Binary) : Digits :=
  if b.exponent < 0 then ⟨b.mantissa * Nat.pow 5 (-b.exponent).toNat, b.exponent⟩
  else ⟨b.mantissa * Nat.pow 2 b.exponent.toNat, 0⟩

/-- The multiple of `10 ^ k` that is in the interval of `b` and nearest to it, if there is one. The number
and the ends of its interval are scaled to quarters of the last mantissa place, then to a common
denominator, so that every comparison is one of natural numbers. -/
def onGrid (b : Binary) (k : Int) : Option Nat :=
  let place := b.exponent - 2
  let scale := Nat.pow 2 place.toNat * Nat.pow 10 (-k).toNat
  let unit := Nat.pow 2 (-place).toNat * Nat.pow 10 k.toNat
  let value := 4 * b.mantissa * scale
  let low := (4 * b.mantissa - if b.narrowBelow then 1 else 2) * scale
  let high := (4 * b.mantissa + 2) * scale
  let d := value / unit
  let closed := b.mantissa % 2 = 0
  let lowerIn := low < d * unit || (closed && low = d * unit)
  let upperIn := (d + 1) * unit < high || (closed && (d + 1) * unit = high)
  if lowerIn && upperIn then
    some (if (d + 1) * unit - value ≤ value - d * unit then d + 1 else d)
  else if lowerIn then some d
  else if upperIn then some (d + 1)
  else none

/-- The exponents to try, from one above the leading decimal place of `b` downwards: seventeen digits
always suffice, and the leading place is off by at most two. -/
def exponents (b : Binary) : List Int :=
  let top := (((b.mantissa.log2 + 1 : Nat) : Int) + b.exponent) * 30103 / 100000 + 1
  (List.range 24).map fun (i : Nat) => top - i

/-- The decimal with the fewest digits that reads back as `b`, nearest to `b` among those. -/
def shortest (b : Binary) : Digits :=
  (b.exponents.findSome? fun k => (b.onGrid k).map (⟨·, k⟩)).getD b.exact

end Binary

/-! ### Doubles -/

/-- What the 64 bits of a double stand for. -/
inductive Double where
  | nan
  | infinite (negative : Bool)
  | zero (negative : Bool)
  | finite (negative : Bool) (magnitude : Binary)
deriving DecidableEq

/-- The fraction of a double has 52 bits. -/
def fractionUnit : Nat := 1 <<< 52

/-- One sign bit, eleven bits of biased exponent, fifty-two bits of fraction. -/
def Double.ofBits (bits : UInt64) : Double :=
  let negative := bits.toNat.testBit 63
  let biased : Nat := bits.toNat / fractionUnit % 2048
  let fraction : Nat := bits.toNat % fractionUnit
  if biased = 2047 then if fraction = 0 then .infinite negative else .nan
  else if biased = 0 then
    if fraction = 0 then .zero negative else .finite negative ⟨fraction, -1074, false⟩
  else .finite negative ⟨fractionUnit + fraction, (biased : Int) - 1075, fraction = 0 && 1 < biased⟩

end HeapStore.Decimal
