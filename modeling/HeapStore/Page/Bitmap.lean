/-!
# Bitmaps

Bit `i` of a string of bytes is bit `i % 8`, counted from the least significant, of byte `i / 8`.
-/

namespace HeapStore.Bitmap

/-- Bit `i`; a bit past the end is not set. -/
def test (bytes : List UInt8) (i : Nat) : Bool := (bytes.getD (i / 8) 0).toNat.testBit (i % 8)

/-- The byte in which only bit `i % 8` is set. -/
def mask (i : Nat) : UInt8 := 1 <<< UInt8.ofNat (i % 8)

/-- The bytes with bit `i` set or cleared, all other bits as they are. -/
def write (bytes : List UInt8) (i : Nat) (value : Bool) : List UInt8 :=
  bytes.modify (i / 8) fun b => if value then b ||| mask i else b &&& ~~~mask i

/-- The bits of a byte, in order. -/
def byteBits (b : UInt8) : List Bool := (List.range 8).map b.toNat.testBit

/-- All bits in order. -/
def bits (bytes : List UInt8) : List Bool := bytes.flatMap byteBits

/-- Is no bit set? -/
def isClear (bytes : List UInt8) : Bool := bytes.all (· == 0)

@[simp] theorem length_write (bytes : List UInt8) (i : Nat) (value : Bool) :
    (write bytes i value).length = bytes.length := by
  simp [write]

theorem length_byteBits (b : UInt8) : (byteBits b).length = 8 := by simp [byteBits]

theorem length_bits (bytes : List UInt8) : (bits bytes).length = 8 * bytes.length := by
  induction bytes with
  | nil => rfl
  | cons b bytes ih =>
    simp only [bits, List.flatMap_cons, List.length_append, length_byteBits, List.length_cons] at ih ⊢
    omega

/-- The list of bits and the test of one bit agree. -/
theorem getD_bits (bytes : List UInt8) (i : Nat) : (bits bytes).getD i false = test bytes i := by
  induction bytes generalizing i with
  | nil => simp [bits, test]
  | cons b bytes ih =>
    rw [bits, List.flatMap_cons, List.getD_eq_getElem?_getD]
    by_cases h : i < 8
    · have h₁ : i / 8 = 0 := Nat.div_eq_of_lt h
      have h₂ : i % 8 = i := Nat.mod_eq_of_lt h
      rw [List.getElem?_append_left (by rw [length_byteBits]; exact h)]
      simp [test, byteBits, h₁, h₂, h]
    · have h₁ : i / 8 = (i - 8) / 8 + 1 := by omega
      have h₂ : i % 8 = (i - 8) % 8 := by omega
      rw [List.getElem?_append_right (by rw [length_byteBits]; omega), length_byteBits,
        ← List.getD_eq_getElem?_getD, ← bits, ih, test, test, h₁, h₂, List.getD_cons_succ]

end HeapStore.Bitmap
