/-!
# Words That Refuse to Wrap

Sums and products of 64-bit words that have no value when the exact result does not fit.
A value, where there is one, is the exact result.
-/

namespace DecimalPi.Word

/-- The exact sum of two words, if it fits. -/
def add? (a b : UInt64) : Option UInt64 :=
  if a.toNat + b.toNat < UInt64.size then some (a + b) else none

/-- The exact product of two words, if it fits. -/
def mul? (a b : UInt64) : Option UInt64 :=
  if a.toNat * b.toNat < UInt64.size then some (a * b) else none

/-- A sum that fits is the exact sum. -/
theorem toNat_of_add?_eq_some {a b c : UInt64} (h : add? a b = some c) :
    c.toNat = a.toNat + b.toNat := by
  unfold add? at h
  split at h
  next fits =>
    obtain rfl := Option.some.inj h
    rw [UInt64.toNat_add]
    exact Nat.mod_eq_of_lt fits
  next => contradiction

/-- A product that fits is the exact product. -/
theorem toNat_of_mul?_eq_some {a b c : UInt64} (h : mul? a b = some c) :
    c.toNat = a.toNat * b.toNat := by
  unfold mul? at h
  split at h
  next fits =>
    obtain rfl := Option.some.inj h
    rw [UInt64.toNat_mul]
    exact Nat.mod_eq_of_lt fits
  next => contradiction

/-- A sum has a value exactly when it stays below the size of a word. -/
theorem isSome_add?_iff {a b : UInt64} :
    (add? a b).isSome ↔ a.toNat + b.toNat < UInt64.size := by
  unfold add?
  split <;> simp_all

/-- A product has a value exactly when it stays below the size of a word. -/
theorem isSome_mul?_iff {a b : UInt64} :
    (mul? a b).isSome ↔ a.toNat * b.toNat < UInt64.size := by
  unfold mul?
  split <;> simp_all

end DecimalPi.Word
