import Mathlib.Algebra.Group.Nat.Defs

/-!
This module contains buffers in which each index has a range of bytes: when the ranges of the valid
indices lie inside of the buffer and apart from each other, and that cells of one size do so if the
length of the buffer has not wrapped around.
-/

variable {ι : Type _}

structure Layout (ι : Type _) where
  offset : ι → Nat
  size : ι → Nat
  len : Nat

namespace Layout

variable {L : Layout ι} {Valid Valid' : ι → Prop} {Differ : ι → ι → Prop}

def Inside (L : Layout ι) (i : ι) : Prop := L.offset i + L.size i ≤ L.len

def Apart (L : Layout ι) (i j : ι) : Prop :=
  L.offset i + L.size i ≤ L.offset j ∨ L.offset j + L.size j ≤ L.offset i

structure Sound (L : Layout ι) (Valid : ι → Prop) (Differ : ι → ι → Prop) : Prop where
  inside : ∀ i, Valid i → L.Inside i
  apart : ∀ i j, Valid i → Valid j → Differ i j → L.Apart i j

theorem Sound.mono (h : L.Sound Valid Differ) (hle : ∀ i, Valid' i → Valid i)
    : L.Sound Valid' Differ := by
  constructor
  . intro i hi
    exact h.inside i (hle i hi)
  . intro i j hi hj hdiffer
    exact h.apart i j (hle i hi) (hle j hj) hdiffer

theorem Sound.comap {κ : Type _} {K : Layout κ} {ValidK : κ → Prop} {DifferK : κ → κ → Prop}
    (h : L.Sound Valid Differ) (f : κ → ι) (hlen : K.len = L.len)
    (hoffset : ∀ k, ValidK k → K.offset k = L.offset (f k))
    (hsize : ∀ k, ValidK k → K.size k = L.size (f k))
    (hvalid : ∀ k, ValidK k → Valid (f k))
    (hdiffer : ∀ k k', ValidK k → ValidK k' → DifferK k k' → Differ (f k) (f k'))
    : K.Sound ValidK DifferK := by
  constructor
  . intro k hk
    unfold Inside
    rw [hlen, hoffset k hk, hsize k hk]
    exact h.inside _ (hvalid k hk)
  . intro k k' hk hk' hne
    unfold Apart
    rw [hoffset k hk, hsize k hk, hoffset k' hk', hsize k' hk']
    exact h.apart _ _ (hvalid k hk) (hvalid k' hk') (hdiffer k k' hk hk' hne)

structure Strided (L : Layout ι) (Valid : ι → Prop) (index : ι → Nat) (n stride M : Nat)
    : Prop where
  size_eq : ∀ i, Valid i → L.size i = stride
  len_eq : L.len = n * stride % M
  index_lt : ∀ i, Valid i → index i < n
  index_inj : ∀ i j, Valid i → Valid j → index i = index j → i = j
  index_surj : ∀ e < n, ∃ i, Valid i ∧ index i = e
  offset_eq : ∀ i, Valid i → index i * stride < M → L.offset i = index i * stride

section strided

variable {index : ι → Nat} {n stride M : Nat}

theorem Strided.offset_eq_of_lt (h : L.Strided Valid index n stride M) (hlt : n * stride < M)
    {i : ι} (hi : Valid i)
    : L.offset i = index i * stride := by
  apply h.offset_eq i hi
  apply Nat.lt_of_le_of_lt _ hlt
  exact Nat.mul_le_mul_right _ (Nat.le_of_lt (h.index_lt i hi))

theorem Strided.sound (h : L.Strided Valid index n stride M) (hlt : n * stride < M)
    : L.Sound Valid (· ≠ ·) := by
  have hend : ∀ i, Valid i → L.offset i + L.size i = (index i + 1) * stride := by
    intro i hi
    rw [h.offset_eq_of_lt hlt hi, h.size_eq i hi, Nat.succ_mul]
  constructor
  . intro i hi
    unfold Inside
    rw [hend i hi, h.len_eq, Nat.mod_eq_of_lt hlt]
    exact Nat.mul_le_mul_right _ (h.index_lt i hi)
  . intro i j hi hj hne
    have hindex : index i ≠ index j := fun heq => hne (h.index_inj i j hi hj heq)
    unfold Apart
    rw [hend i hi, hend j hj, h.offset_eq_of_lt hlt hi, h.offset_eq_of_lt hlt hj]
    rcases Nat.lt_or_gt_of_ne hindex with hlt | hgt
    . exact .inl (Nat.mul_le_mul_right _ hlt)
    . exact .inr (Nat.mul_le_mul_right _ hgt)

theorem Strided.lt_of_sound (h : L.Strided Valid index n stride M) (hM : 0 < M)
    (hsound : L.Sound Valid Differ)
    : n * stride < M := by
  apply Nat.lt_of_not_le
  intro hge
  have hstride : 0 < stride := by
    rcases Nat.eq_zero_or_pos stride with hzero | hpos
    . rw [hzero, Nat.mul_zero] at hge
      omega
    . exact hpos
  have hlen : L.len < M := by
    rw [h.len_eq]
    exact Nat.mod_lt _ hM
  have hcell : L.len / stride * stride ≤ L.len := Nat.div_mul_le_self _ _
  have hindex : L.len / stride < n := by
    apply Nat.lt_of_mul_lt_mul_right (a := stride)
    omega
  rcases h.index_surj _ hindex with ⟨i, hi, heq⟩
  have hinside := hsound.inside i hi
  unfold Inside at hinside
  rw [h.offset_eq i hi (by rw [heq]; omega), h.size_eq i hi, heq] at hinside
  have hnext := Nat.lt_div_mul_add (a := L.len) hstride
  omega

theorem Strided.sound_iff (h : L.Strided Valid index n stride M) (hM : 0 < M)
    : L.Sound Valid (· ≠ ·) ↔ n * stride < M :=
  ⟨h.lt_of_sound hM, h.sound⟩

end strided

end Layout
