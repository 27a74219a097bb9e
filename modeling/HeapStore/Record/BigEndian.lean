/-!
# Big-endian numbers

A number as a given number of bytes, the most significant first; what does not fit is cut off at the
front.
-/

namespace HeapStore.BigEndian

/-- The last `w` base-256 digits of `n`, the most significant first. -/
def toBytes : Nat → Nat → List UInt8
  | 0, _ => []
  | w + 1, n => toBytes w (n / 256) ++ [UInt8.ofNat n]

/-- The number whose base-256 digits are the bytes. -/
def ofBytes (bytes : List UInt8) : Nat := bytes.foldl (fun n b => n * 256 + b.toNat) 0

@[simp] theorem length_toBytes (w n : Nat) : (toBytes w n).length = w := by
  induction w generalizing n with
  | zero => rfl
  | succ w ih => simp [toBytes, ih]

theorem ofBytes_append_singleton (bytes : List UInt8) (b : UInt8) :
    ofBytes (bytes ++ [b]) = ofBytes bytes * 256 + b.toNat := by
  simp [ofBytes]

/-- Writing what was read gives the bytes back. -/
theorem toBytes_ofBytes (bytes : List UInt8) : toBytes bytes.length (ofBytes bytes) = bytes := by
  rw [← List.reverse_reverse bytes]
  generalize bytes.reverse = rev
  induction rev with
  | nil => rfl
  | cons b rev ih =>
    have hb : b.toNat < 256 := b.toNat_lt
    have hdiv : (ofBytes rev.reverse * 256 + b.toNat) / 256 = ofBytes rev.reverse := by omega
    have hlast : UInt8.ofNat (ofBytes rev.reverse * 256 + b.toNat) = b := by
      apply UInt8.toNat_inj.1
      rw [UInt8.toNat_ofNat']
      omega
    rw [List.reverse_cons, ofBytes_append_singleton, List.length_append, List.length_singleton, toBytes,
      hdiv, hlast, ih]

end HeapStore.BigEndian
