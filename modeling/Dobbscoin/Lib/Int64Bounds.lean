import Mathlib.Algebra.Group.Int.Defs

/-!
# 64-bit integers

Sums, differences and products that 64 bits hold are those of the integers.
-/

namespace Int64Bounds

theorem toInt_add {a b : Int64} (hlow : -2 ^ 63 ≤ a.toInt + b.toInt) (hhigh : a.toInt + b.toInt < 2 ^ 63) :
    (a + b).toInt = a.toInt + b.toInt := by
  rw [Int64.toInt_add]
  exact Int.bmod_eq_of_le hlow hhigh

theorem toInt_sub {a b : Int64} (hlow : -2 ^ 63 ≤ a.toInt - b.toInt) (hhigh : a.toInt - b.toInt < 2 ^ 63) :
    (a - b).toInt = a.toInt - b.toInt := by
  rw [Int64.toInt_sub]
  exact Int.bmod_eq_of_le hlow hhigh

theorem toInt_mul {a b : Int64} (hlow : -2 ^ 63 ≤ a.toInt * b.toInt) (hhigh : a.toInt * b.toInt < 2 ^ 63) :
    (a * b).toInt = a.toInt * b.toInt := by
  rw [Int64.toInt_mul]
  exact Int.bmod_eq_of_le hlow hhigh

/-- A number that 32 bits hold goes through both conversions. -/
theorem toNat_toUInt32 {a : Int64} (hpos : 0 ≤ a.toInt) (hlt : a.toInt < 2 ^ 32) :
    a.toUInt64.toUInt32.toNat = a.toInt.toNat := by
  have hnonneg : (0 : Int64) ≤ a := by
    rw [Int64.le_iff_toInt_le]
    exact hpos
  have hconv : a.toUInt64.toNat = a.toInt.toNat := Int64.toNat_toUInt64_of_le hnonneg
  rw [UInt64.toNat_toUInt32, hconv]
  exact Nat.mod_eq_of_lt (by omega)

end Int64Bounds
