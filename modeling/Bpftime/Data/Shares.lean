import Mathlib.Data.Nat.Notation

/-!
This module contains the split of `size` positions into `n` runs of equal length, the last of which
also takes what is left over.
-/

namespace Shares

variable {size n i o off : ℕ}

def owner (size n off : ℕ) : ℕ := min (off / (size / n)) (n - 1)

def start (size n i : ℕ) : ℕ := i * (size / n)

def width (size n i : ℕ) : ℕ := if i + 1 = n then size / n + size % n else size / n

theorem owner_lt (hn : 1 ≤ n) : owner size n off < n := by
  unfold owner
  omega

theorem start_owner_le : start size n (owner size n off) ≤ off := by
  unfold start owner
  apply Nat.le_trans _ (Nat.div_mul_le_self off (size / n))
  apply Nat.mul_le_mul_right
  omega

theorem start_last (hn : 1 ≤ n) : start size n (n - 1) + (size / n + size % n) = size := by
  have hmul : n * (size / n) = (n - 1) * (size / n) + size / n := by
    rw [← Nat.succ_mul]
    congr 1
    omega
  have hdiv := Nat.div_add_mod size n
  unfold start
  omega

theorem start_add_le (hi : i + 1 < n) : start size n i + size / n ≤ start size n (n - 1) := by
  unfold start
  rw [← Nat.succ_mul]
  apply Nat.mul_le_mul_right
  omega

theorem sub_start_lt_width (hn : 1 ≤ n) (hle : n ≤ size) (hoff : off < size)
    : off - start size n (owner size n off) < width size n (owner size n off) := by
  have hpos : 0 < size / n := Nat.div_pos hle hn
  unfold width
  split
  next hlast =>
    have hend := @start_last size n hn
    have howner : owner size n off = n - 1 := by omega
    rw [howner]
    omega
  next hne =>
    have howner : owner size n off = off / (size / n) := by
      unfold owner at hne ⊢
      omega
    rw [howner]
    unfold start
    have hmod := Nat.mod_lt off hpos
    have hdiv := Nat.div_add_mod off (size / n)
    rw [Nat.mul_comm] at hdiv
    omega

theorem start_add_lt (hn : 1 ≤ n) (hi : i < n) (ho : o < width size n i)
    : start size n i + o < size := by
  have hend := @start_last size n hn
  unfold width at ho
  split at ho
  next hlast =>
    have heq : i = n - 1 := by omega
    rw [heq]
    omega
  next hne =>
    have hle := @start_add_le size n i (by omega)
    omega

theorem owner_start_add (hn : 1 ≤ n) (hle : n ≤ size) (hi : i < n) (ho : o < width size n i)
    : owner size n (start size n i + o) = i := by
  have hpos : 0 < size / n := Nat.div_pos hle hn
  have hdiv : (start size n i + o) / (size / n) = i + o / (size / n) := by
    unfold start
    rw [Nat.add_comm, Nat.add_mul_div_right _ _ hpos, Nat.add_comm]
  unfold owner
  rw [hdiv]
  unfold width at ho
  split at ho
  next hlast =>
    generalize o / (size / n) = k
    omega
  next hne =>
    rw [Nat.div_eq_of_lt ho]
    omega

end Shares
