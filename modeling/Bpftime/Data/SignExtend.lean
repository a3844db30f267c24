import Mathlib.Algebra.Group.Int.Defs
import Mathlib.Algebra.Group.Nat.Defs

namespace SignExtend

theorem cast_toNat (x : Int64) : (x.toUInt64.toNat : Int) = x.toInt % 2 ^ 64 := by
  have hlt := x.toUInt64.toNat_lt
  have hint : x.toInt = (x.toUInt64.toNat : Int).bmod (2 ^ 64) := BitVec.toInt_eq_toNat_bmod _
  rw [hint]
  change _ = Int.bmod _ (2 ^ 64) % ((2 ^ 64 : Nat) : Int)
  rw [Int.bmod_emod]
  omega

theorem toNat_of_nonneg {x : Int32} (h : 0 ≤ x.toInt)
    : x.toInt64.toUInt64.toNat = x.toInt.toNat := by
  rw [Int64.toNat_toUInt64_of_le]
  . change x.toInt64.toInt.toNat = _
    rw [Int32.toInt_toInt64]
  . rw [Int64.le_iff_toInt_le, Int32.toInt_toInt64]
    exact h

theorem toInt_toInt32_of_lt {n : UInt32} (h : n.toNat < 2 ^ 31) : n.toInt32.toInt = n.toNat := by
  change n.toBitVec.toInt = n.toBitVec.toNat
  rw [BitVec.toInt_eq_toNat_of_lt]
  change 2 * n.toNat < 2 ^ 32
  omega

theorem toInt_toInt32_neg {n : UInt32} (h : 2 ^ 31 ≤ n.toNat) : n.toInt32.toInt < 0 := by
  have hlt := n.toNat_lt
  change n.toBitVec.toInt < 0
  rw [BitVec.toInt_eq_toNat_cond, if_neg]
  . omega
  . change ¬ 2 * n.toNat < 2 ^ 32
    omega

theorem toNat_of_lt {n : UInt32} (h : n.toNat < 2 ^ 31)
    : n.toInt32.toInt64.toUInt64.toNat = n.toNat := by
  have hint := toInt_toInt32_of_lt h
  rw [toNat_of_nonneg (by omega), hint]
  omega

end SignExtend
