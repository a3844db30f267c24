import Mathlib.Algebra.Group.Nat.Defs

namespace Grid

def linear (w h x y z : ℕ) : ℕ := z * w * h + y * w + x

theorem pair_lt {a b m n : ℕ} (ha : a < m) (hb : b < n) : a * n + b < m * n := by
  have hle : (a + 1) * n ≤ m * n := Nat.mul_le_mul_right _ ha
  rw [Nat.succ_mul] at hle
  omega

theorem pair_inj {a b a' b' n : ℕ} (hb : b < n) (hb' : b' < n) (h : a * n + b = a' * n + b')
    : a = a' ∧ b = b' := by
  have hdiv (c d : ℕ) (hd : d < n) : (c * n + d) / n = c ∧ (c * n + d) % n = d := by
    rw [Nat.mul_comm, Nat.mul_add_div (by omega), Nat.mul_add_mod, Nat.div_eq_of_lt hd,
      Nat.mod_eq_of_lt hd]
    exact ⟨rfl, rfl⟩
  have hleft := hdiv a b hb
  have hright := hdiv a' b' hb'
  rw [h] at hleft
  exact ⟨hleft.1.symm.trans hright.1, hleft.2.symm.trans hright.2⟩

theorem linear_eq (w h x y z : ℕ) : linear w h x y z = (z * h + y) * w + x := by
  unfold linear
  rw [Nat.add_mul, Nat.mul_right_comm]

theorem linear_lt {w h d x y z : ℕ} (hx : x < w) (hy : y < h) (hz : z < d)
    : linear w h x y z < d * h * w := by
  rw [linear_eq]
  exact pair_lt (pair_lt hz hy) hx

theorem linear_inj {w h x y z x' y' z' : ℕ} (hx : x < w) (hx' : x' < w) (hy : y < h) (hy' : y' < h)
    (heq : linear w h x y z = linear w h x' y' z')
    : x = x' ∧ y = y' ∧ z = z' := by
  rw [linear_eq, linear_eq] at heq
  rcases pair_inj hx hx' heq with ⟨hrow, hx⟩
  rcases pair_inj hy hy' hrow with ⟨hz, hy⟩
  exact ⟨hx, hy, hz⟩

end Grid
