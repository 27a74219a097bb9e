import HeapStore.Decimal.Shortest

/-!
# Texts of doubles

A double is written with the digits of its shortest decimal. A `Style` says which numbers are written
with an exponent and whether a whole number keeps a `.0`. Two styles are in use: `plain`, where every
number is written out place by place, and `marked`, where the text always shows that it is no integer.
-/

namespace HeapStore.Decimal

structure Style where
  /-- The decimal exponents (of the leading digit) written without an exponent, from the first of the two
  numbers up to but not including the second; all, if there is no window. -/
  window : Option (Int × Int)
  /-- Does a whole number written without an exponent end in `.0`? -/
  keepsPoint : Bool

/-- Place by place, whole numbers as integers. -/
def Style.plain : Style := ⟨none, false⟩

/-- Exponents below `1e-4` and from `1e16` on; whole numbers end in `.0`. -/
def Style.marked : Style := ⟨some (-4, 16), true⟩

def zeros (n : Nat) : String := "".pushn '0' n

/-- The decimal place by place. -/
def Digits.positional (keepsPoint : Bool) (d : Digits) : String :=
  let text := toString d.significand
  if 0 ≤ d.exponent then
    text ++ zeros d.exponent.toNat ++ if keepsPoint then ".0" else ""
  else
    let places := (-d.exponent).toNat
    if places < text.length then
      (text.take (text.length - places)).toString ++ "." ++ (text.drop (text.length - places)).toString
    else "0." ++ zeros (places - text.length) ++ text

/-- The decimal as a leading digit, the other digits after a point, and the exponent of the leading
digit. -/
def Digits.scientific (d : Digits) : String :=
  let text := toString d.significand
  let rest := (text.drop 1).toString
  let point := if rest.isEmpty then "" else "."
  (text.take 1).toString ++ point ++ rest ++ s!"e{d.exponent + (text.length - 1 : Nat)}"

/-- The decimal exponent of the leading digit. -/
def Digits.magnitude (d : Digits) : Int := d.exponent + ((toString d.significand).length - 1 : Nat)

def Style.isPositional (s : Style) (d : Digits) : Bool :=
  match s.window with
  | none => true
  | some (low, high) => low ≤ d.magnitude && d.magnitude < high

def sign (negative : Bool) : String := if negative then "-" else ""

def Double.text (s : Style) : Double → String
  | .nan => "NaN"
  | .infinite negative => sign negative ++ "inf"
  | .zero negative => sign negative ++ if s.keepsPoint then "0.0" else "0"
  | .finite negative magnitude =>
    let d := magnitude.shortest
    sign negative ++ if s.isPositional d then d.positional s.keepsPoint else d.scientific

/-! ### Examples -/

example : (Double.ofBits 0x3FF0000000000000).text .plain = "1" := by decide +kernel

example : (Double.ofBits 0x3FF0000000000000).text .marked = "1.0" := by decide +kernel

example : (Double.ofBits 0x8000000000000000).text .marked = "-0.0" := by decide +kernel

-- the least exponent without an exponent in the text, and the first with one
example : (Double.ofBits 0x3F1A36E2EB1C432D).text .marked = "0.0001" := by decide +kernel

example : (Double.ofBits 0x3EFF75104D551D69).text .marked = "3e-5" := by decide +kernel

example : (Double.ofBits 0x4341C37937E08000).text .marked = "1e16" := by decide +kernel

-- two decimals are equally near: the greater one is taken
example : (Double.ofBits 0x43097BCBEC9E1E92).text .plain = "896623774516178.3" := by decide +kernel

end HeapStore.Decimal
