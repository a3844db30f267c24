import Mathlib.Algebra.Group.Nat.Defs

namespace BitCount

def count : Nat → Nat → Nat
  | 0, _ => 0
  | n + 1, x => x % 2 + count n (x / 2)

@[simp]
theorem count_zero_right (n : Nat) : count n 0 = 0 := by
  induction n with
  | zero => rfl
  | succ n ih =>
    unfold count
    rw [Nat.zero_div, ih]

theorem count_eq_zero_iff {n x : Nat} (h : x < 2 ^ n) : count n x = 0 ↔ x = 0 := by
  induction n generalizing x with
  | zero =>
    rw [Nat.pow_zero] at h
    simp only [count, true_iff]
    omega
  | succ n ih =>
    rw [Nat.pow_succ] at h
    unfold count
    rw [Nat.add_eq_zero_iff, ih (by omega)]
    omega

theorem count_eq_one_iff {n x : Nat} (h : x < 2 ^ n) : count n x = 1 ↔ ∃ k, x = 2 ^ k := by
  induction n generalizing x with
  | zero =>
    rw [Nat.pow_zero] at h
    have hpos : ∀ k, x ≠ 2 ^ k := by
      intro k
      have := Nat.two_pow_pos k
      omega
    simp [count, hpos]
  | succ n ih =>
    rw [Nat.pow_succ] at h
    unfold count
    rcases Nat.mod_two_eq_zero_or_one x with heven | hodd
    . rw [heven, Nat.zero_add, ih (by omega)]
      constructor
      . intro ⟨k, hk⟩
        refine ⟨k + 1, ?_⟩
        rw [Nat.pow_succ]
        omega
      . intro ⟨k, hk⟩
        cases k with
        | zero =>
          rw [Nat.pow_zero] at hk
          omega
        | succ k =>
          rw [Nat.pow_succ] at hk
          exact ⟨k, by omega⟩
    . rw [hodd, Nat.add_eq_left, count_eq_zero_iff (by omega)]
      constructor
      . intro hzero
        exact ⟨0, by omega⟩
      . intro ⟨k, hk⟩
        cases k with
        | zero =>
          rw [Nat.pow_zero] at hk
          omega
        | succ k =>
          rw [Nat.pow_succ] at hk
          omega

end BitCount
