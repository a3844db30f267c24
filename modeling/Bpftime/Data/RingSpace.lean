import Mathlib.Algebra.BigOperators.Ring.List
import Mathlib.Algebra.Order.BigOperators.Group.List
import Mathlib.Algebra.Order.Group.Nat
import Mathlib.Data.Nat.ModEq

/-!
This module contains the space of a circular buffer of `n` cells that is handed out front to back in
pieces of the given widths: where each piece starts, and that pieces of one window share no cell.
-/

namespace RingSpace

def start (ws : List Nat) (i : Nat) : Nat := (ws.take i).sum

variable {ws : List Nat}

theorem start_succ {i w : Nat} (h : ws[i]? = some w) : start ws (i + 1) = start ws i + w := by
  unfold start
  rw [List.take_add_one, h, List.sum_append]
  simp

theorem start_le {i j : Nat} (h : i ≤ j) : start ws i ≤ start ws j := by
  apply List.Sublist.sum_le_sum
  . exact (List.take_prefix_take_left h).sublist
  . simp

theorem start_append {vs : List Nat} {i : Nat} (h : i ≤ ws.length)
    : start (ws ++ vs) i = start ws i := by
  unfold start
  rw [List.take_append_of_le_length h]

theorem dvd_start {d : Nat} (h : ∀ w ∈ ws, d ∣ w) (i : Nat) : d ∣ start ws i := by
  apply List.dvd_sum
  intro w hw
  apply h
  exact List.mem_of_mem_take hw

theorem eq_of_mod_eq {n a x y : Nat} (hx : a ≤ x) (hxn : x < a + n) (hy : a ≤ y) (hyn : y < a + n)
    (h : x % n = y % n)
    : x = y := by
  rcases Nat.le_total x y with hle | hle
  . have hdvd : n ∣ y - x := (Nat.modEq_iff_dvd' hle).mp h
    have := Nat.eq_zero_of_dvd_of_lt hdvd (by omega)
    omega
  . have hdvd : n ∣ x - y := (Nat.modEq_iff_dvd' hle).mp h.symm
    have := Nat.eq_zero_of_dvd_of_lt hdvd (by omega)
    omega

theorem linear_apart {n x y v w : Nat} (hxy : x + v ≤ y) (hyx : y + w ≤ x + n) (hw : 0 < w)
    : x % n + v ≤ y % n ∨ y % n + w ≤ x % n := by
  have hx : x % n < n := Nat.mod_lt _ (by omega)
  have hy : y % n = (x % n + (y - x)) % n := by
    rw [Nat.mod_add_mod, Nat.add_sub_cancel' (by omega)]
  rcases Nat.lt_or_ge (x % n + (y - x)) n with hlt | hge
  . rw [Nat.mod_eq_of_lt hlt] at hy
    omega
  . have hsub : (x % n + (y - x)) % n = x % n + (y - x) - n := by
      rw [Nat.mod_eq_sub_mod hge]
      apply Nat.mod_eq_of_lt
      omega
    rw [hsub] at hy
    omega

def Within (n pos width x : Nat) : Prop := ∃ d < width, x % n = (pos + d) % n

theorem Within.of_lt {n pos width d : Nat} (h : d < width) : Within n pos width (pos % n + d) := by
  exists d
  rw [Nat.mod_add_mod]
  exact ⟨h, rfl⟩

theorem Within.of_add_lt {n pos width c d : Nat} (h : c + d < width)
    : Within n pos width ((pos + c) % n + d) := by
  exists c + d
  rw [Nat.mod_add_mod, Nat.add_assoc]
  exact ⟨h, rfl⟩

theorem not_within_of_ne {n k i j m x v w : Nat} (hki : k ≤ i) (hkj : k ≤ j) (hij : i ≠ j)
    (hv : ws[i]? = some v) (hw : ws[j]? = some w) (hi : i < m) (hj : j < m)
    (hwindow : start ws m ≤ start ws k + n) (hx : Within n (start ws i) v x)
    : ¬ Within n (start ws j) w x := by
  rintro ⟨e, he, hxe⟩
  rcases hx with ⟨d, hd, hxd⟩
  have hi1 := start_succ hv
  have hj1 := start_succ hw
  have hik := @start_le ws _ _ hki
  have hjk := @start_le ws _ _ hkj
  have him := @start_le ws _ _ (show i + 1 ≤ m from hi)
  have hjm := @start_le ws _ _ (show j + 1 ≤ m from hj)
  have heq : start ws i + d = start ws j + e := by
    apply @eq_of_mod_eq n (start ws k)
    . omega
    . omega
    . omega
    . omega
    . rw [← hxd, hxe]
  rcases Nat.lt_or_gt_of_ne hij with hlt | hgt
  . have := @start_le ws _ _ (show i + 1 ≤ j from hlt)
    omega
  . have := @start_le ws _ _ (show j + 1 ≤ i from hgt)
    omega

end RingSpace
