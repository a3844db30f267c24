import Mathlib.Data.List.Basic
import Mathlib.Data.Nat.Bitwise

namespace BitArray

def bit (i : ℕ) : UInt8 := 1 <<< UInt8.ofNat i

def setBit (a : List UInt8) (i : ℕ) : List UInt8 :=
  if i / 8 < a.length then a.modify (i / 8) (fun b => b ||| bit (i % 8)) else a

def testBit (a : List UInt8) (i : ℕ) : Bool :=
  match a[i / 8]? with
  | some b => b &&& bit (i % 8) != 0
  | none => false

@[simp]
theorem length_setBit (a : List UInt8) (i : ℕ) : (setBit a i).length = a.length := by
  unfold setBit
  split
  next => rw [List.length_modify]
  next => rfl

theorem toNat_bit {i : ℕ} (hi : i < 8) : (bit i).toNat = 2 ^ i := by
  have hall : ∀ i < 8, (bit i).toNat = 2 ^ i := by decide
  exact hall i hi

theorem and_bit_bne_zero (b : UInt8) {i : ℕ} (hi : i < 8)
    : (b &&& bit i != 0) = b.toNat.testBit i := by
  have hnat : (b &&& bit i).toNat = (b.toNat.testBit i).toNat * 2 ^ i := by
    rw [UInt8.toNat_and, toNat_bit hi, Nat.and_two_pow]
  cases htest : b.toNat.testBit i with
  | true =>
    rw [bne_iff_ne]
    intro hzero
    rw [hzero, htest, Bool.toNat_true, Nat.one_mul] at hnat
    have := Nat.two_pow_pos i
    simp only [UInt8.toNat_zero] at hnat
    omega
  | false =>
    rw [htest, Bool.toNat_false, Nat.zero_mul] at hnat
    rw [bne_eq_false_iff_eq, ← UInt8.toNat_inj, hnat]
    rfl

theorem or_bit_and_bit (b : UInt8) {i j : ℕ} (hi : i < 8) (hj : j < 8)
    : ((b ||| bit i) &&& bit j != 0) = ((b &&& bit j != 0) || decide (i = j)) := by
  rw [and_bit_bne_zero _ hj, and_bit_bne_zero _ hj]
  rw [UInt8.toNat_or, toNat_bit hi, Nat.testBit_or, Nat.testBit_two_pow]

theorem testBit_setBit {a : List UInt8} {i : ℕ} (hi : i / 8 < a.length) (j : ℕ)
    : testBit (setBit a i) j = (testBit a j || decide (i = j)) := by
  unfold testBit setBit
  rw [if_pos hi]
  by_cases hbyte : i / 8 = j / 8
  . rw [← hbyte, List.getElem?_modify_eq, List.getElem?_eq_getElem hi]
    simp only [Option.map_eq_map, Option.map_some]
    rw [or_bit_and_bit _ (Nat.mod_lt _ (by omega)) (Nat.mod_lt _ (by omega))]
    congr 1
    apply decide_eq_decide.mpr
    omega
  . have hne : i ≠ j := by
      intro heq
      rw [heq] at hbyte
      exact hbyte rfl
    rw [List.getElem?_modify_ne _ _ hbyte]
    simp [hne]

theorem testBit_setBit_of_testBit {a : List UInt8} {j : ℕ} (h : testBit a j = true) (i : ℕ)
    : testBit (setBit a i) j = true := by
  by_cases hi : i / 8 < a.length
  . rw [testBit_setBit hi, h, Bool.true_or]
  . unfold setBit
    rw [if_neg hi]
    exact h

end BitArray
