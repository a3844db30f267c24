import Mathlib.Algebra.Order.Ring.Nat
import Mathlib.Data.List.Basic

namespace LittleEndian

def byte (v i : ℕ) : UInt8 := .ofNat (v / 256 ^ i)

def value (bytes : ℕ → UInt8) : ℕ → ℕ
  | 0 => 0
  | n + 1 => value bytes n + 256 ^ n * (bytes n).toNat

variable {bytes bytes' : ℕ → UInt8} {n v w : ℕ}

theorem value_lt (bytes : ℕ → UInt8) (n : ℕ) : value bytes n < 256 ^ n := by
  induction n with
  | zero => exact Nat.one_pos
  | succ n ih =>
    have hbyte := (bytes n).toNat_lt
    have hmul : 256 ^ n * ((bytes n).toNat + 1) ≤ 256 ^ n * 256 := Nat.mul_le_mul_left _ (by omega)
    rw [Nat.mul_add] at hmul
    rw [Nat.pow_succ]
    unfold value
    omega

theorem value_congr (h : ∀ i < n, bytes i = bytes' i) : value bytes n = value bytes' n := by
  induction n with
  | zero => rfl
  | succ n ih =>
    unfold value
    rw [ih, h n (by omega)]
    intro i hi
    exact h i (by omega)

theorem value_inj : value bytes n = value bytes' n ↔ ∀ i < n, bytes i = bytes' i := by
  constructor
  . induction n with
    | zero =>
      intro _ i hi
      omega
    | succ n ih =>
      intro h i hi
      have hpos : 0 < 256 ^ n := Nat.pow_pos (by decide)
      unfold value at h
      have hlow : value bytes n = value bytes' n := by
        have := congrArg (· % 256 ^ n) h
        simp only [Nat.add_mul_mod_self_left, Nat.mod_eq_of_lt (value_lt _ n)] at this
        exact this
      have hhigh : bytes n = bytes' n := by
        rw [hlow] at h
        apply UInt8.toNat_inj.mp
        exact Nat.eq_of_mul_eq_mul_left hpos (Nat.add_left_cancel h)
      by_cases heq : i = n
      . rw [heq]
        exact hhigh
      . exact ih hlow i (by omega)
  . exact value_congr

theorem value_byte (v n : ℕ) : value (byte v) n = v % 256 ^ n := by
  induction n with
  | zero => simp [value, Nat.mod_one]
  | succ n ih =>
    unfold value
    rw [ih, Nat.mod_pow_succ]
    unfold byte
    rw [UInt8.toNat_ofNat']

theorem byte_eq_iff : (∀ i < n, byte v i = byte w i) ↔ v % 256 ^ n = w % 256 ^ n := by
  rw [← value_inj, value_byte, value_byte]

theorem map_byte_eq_iff {k : ℕ}
    : (List.range k).map (byte v) = (List.range n).map (byte w) ↔ k = n ∧ v % 256 ^ n = w % 256 ^ n := by
  constructor
  . intro h
    have hlength := congrArg List.length h
    rw [List.length_map, List.length_map, List.length_range, List.length_range] at hlength
    rw [hlength, List.map_inj_left] at h
    refine ⟨hlength, byte_eq_iff.mp ?_⟩
    intro i hi
    exact h i (List.mem_range.mpr hi)
  . rintro ⟨hk, hmod⟩
    rw [hk, List.map_inj_left]
    intro i hi
    exact byte_eq_iff.mpr hmod i (List.mem_range.mp hi)

theorem map_byte_add (v m n : ℕ) : (List.range (m + n)).map (byte v)
        =
      (List.range m).map (byte v) ++ (List.range n).map (byte (v / 256 ^ m)) := by
  rw [List.range_add, List.map_append, List.map_map]
  congr 1
  apply List.map_congr_left
  intro i _
  simp only [Function.comp_apply, byte]
  rw [Nat.pow_add, Nat.div_div_eq_div_mul]

theorem byte_or (v w i : ℕ) : byte (v ||| w) i = byte v i ||| byte w i := by
  have hpow : 256 ^ i = 2 ^ (8 * i) := Nat.pow_mul 2 8 i |>.symm
  unfold byte
  rw [hpow, Nat.or_div_two_pow, UInt8.ofNat_or]

theorem byte_mod {i : ℕ} (hi : i < n) : byte (v % 256 ^ n) i = byte v i :=
  byte_eq_iff.mpr (Nat.mod_mod _ _) i hi

theorem byte_mul_pow (v k i : ℕ) : byte (v * 256 ^ k) i = if i < k then 0 else byte v (i - k) := by
  have hpos : 0 < 256 ^ i := Nat.pow_pos (by decide)
  unfold byte
  split
  next hlt =>
    obtain ⟨d, rfl⟩ : ∃ d, k = i + d + 1 := ⟨k - i - 1, by omega⟩
    rw [Nat.pow_succ, Nat.pow_add, Nat.mul_assoc, Nat.mul_left_comm, Nat.mul_div_cancel_left _ hpos]
    apply UInt8.toNat_inj.mp
    rw [UInt8.toNat_ofNat', ← Nat.mul_assoc]
    exact Nat.mul_mod_left _ _
  next hge =>
    obtain ⟨d, rfl⟩ : ∃ d, i = k + d := ⟨i - k, by omega⟩
    rw [Nat.add_sub_cancel_left, Nat.pow_add, Nat.mul_comm v, Nat.mul_div_mul_left]
    exact Nat.pow_pos (by decide)

end LittleEndian
