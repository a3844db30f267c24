import Bpftime.BpfMap.Ringbuf.System
import Mathlib.Data.Nat.Bitwise

namespace Bpftime.RingbufMap

variable {p : Params}

def cap (p : Params) : Nat := p.maxEnt.toNat

def total (size : Nat) : Nat := (size + 15) / 8 * 8

theorem cap_pos : 0 < cap p := by
  rcases p.isPowerOfTwo with ⟨k, hk⟩
  unfold cap
  rw [hk]
  exact Nat.two_pow_pos k

theorem cap_lt : cap p < 2 ^ 32 := p.maxEnt.toNat_lt

theorem cap_dvd : cap p ∣ 2 ^ 64 := by
  rcases p.isPowerOfTwo with ⟨k, hk⟩
  have hlt := @cap_lt p
  unfold cap at *
  rw [hk] at *
  apply Nat.pow_dvd_pow
  have := (Nat.pow_lt_pow_iff_right (by decide)).mp hlt
  omega

theorem mod_cap_of_mod (n : Nat) : n % 2 ^ 64 % cap p = n % cap p :=
  Nat.mod_mod_of_dvd n cap_dvd

theorem eight_dvd_cap (h : 8 ≤ cap p) : 8 ∣ cap p := by
  rcases p.isPowerOfTwo with ⟨k, hk⟩
  unfold cap at *
  rw [hk] at h ⊢
  have hk3 : 3 ≤ k := (@Nat.pow_le_pow_iff_right 2 3 k (by decide)).mp h
  exact Nat.pow_dvd_pow 2 hk3

theorem toNat_mask : (mask p).toUInt64.toNat = cap p - 1 := by
  have := @cap_pos p
  have hlt := @cap_lt p
  unfold mask cap at *
  rw [UInt32.toNat_toUInt64, UInt32.toNat_sub_of_le]
  . rfl
  . rw [UInt32.le_iff_toNat_le]
    exact this

theorem headerAt_eq (pos : UInt64) : headerAt p pos = data p + pos.toNat % cap p := by
  rcases p.isPowerOfTwo with ⟨k, hk⟩
  unfold headerAt
  rw [UInt64.toNat_and, toNat_mask]
  unfold cap
  rw [hk, Nat.and_two_pow_sub_one_eq_mod]

theorem dvd_total (size : Nat) : 8 ∣ total size := by
  exact Nat.dvd_mul_left 8 _

theorem le_total (size : Nat) : size + 8 ≤ total size := by
  unfold total
  omega

theorem and_busy_eq_zero_iff (w : UInt32)
    : w &&& BPF_RINGBUF_BUSY_BIT = 0 ↔ w.toNat / 2 ^ 31 % 2 = 0 := by
  rw [← UInt32.toNat_inj, UInt32.toNat_and]
  show w.toNat &&& 2 ^ 31 = 0 ↔ _
  rw [Nat.and_two_pow, Nat.testBit_eq_decide_div_mod_eq]
  simp

theorem and_discard_eq_zero_iff (w : UInt32)
    : w &&& BPF_RINGBUF_DISCARD_BIT = 0 ↔ w.toNat / 2 ^ 30 % 2 = 0 := by
  rw [← UInt32.toNat_inj, UInt32.toNat_and]
  show w.toNat &&& 2 ^ 30 = 0 ↔ _
  rw [Nat.and_two_pow, Nat.testBit_eq_decide_div_mod_eq]
  simp

theorem toNat_and_not_busy (w : UInt32)
    : (w &&& ~~~BPF_RINGBUF_BUSY_BIT).toNat = w.toNat % 2 ^ 31 := by
  rw [UInt32.toNat_and]
  show w.toNat &&& (2 ^ 31 - 1) = _
  rw [Nat.and_two_pow_sub_one_eq_mod]

theorem toNat_or_discard {w : UInt32} (h : w.toNat < 2 ^ 30)
    : (w ||| BPF_RINGBUF_DISCARD_BIT).toNat = w.toNat + 2 ^ 30 := by
  rw [UInt32.toNat_or]
  show w.toNat ||| 2 ^ 30 = _
  rw [Nat.or_comm, Nat.add_comm]
  exact (Nat.two_pow_add_eq_or_of_lt h 1).symm

theorem toNat_or_busy {size : UInt64} (h : size.toNat < 2 ^ 30)
    : (size ||| BPF_RINGBUF_BUSY_BIT.toUInt64).toUInt32.toNat = size.toNat + 2 ^ 31 := by
  rw [UInt64.toNat_toUInt32, UInt64.toNat_or]
  show (size.toNat ||| 2 ^ 31) % 2 ^ 32 = _
  have hor : size.toNat ||| 2 ^ 31 = size.toNat + 2 ^ 31 := by
    have hlt : size.toNat < 2 ^ 31 := by omega
    rw [Nat.or_comm, Nat.add_comm]
    exact (Nat.two_pow_add_eq_or_of_lt hlt 1).symm
  rw [hor, Nat.mod_eq_of_lt]
  omega

theorem toNat_roundupLen (len : UInt32) : (roundupLen len).toNat = total (len.toNat % 2 ^ 30) := by
  have hlen := len.toNat_lt
  have hshl : (len <<< 2).toNat = len.toNat * 4 % 2 ^ 32 := by
    rw [UInt32.toNat_shiftLeft]
    show len.toNat <<< 2 % 2 ^ 32 = _
    rw [Nat.shiftLeft_eq]
  have hshr : (len <<< 2 >>> 2).toNat = len.toNat % 2 ^ 30 := by
    rw [UInt32.toNat_shiftRight]
    show (len <<< 2).toNat >>> 2 = _
    rw [Nat.shiftRight_eq_div_pow, hshl]
    omega
  unfold roundupLen total
  simp only [UInt32.toNat_mul, UInt32.toNat_div, UInt32.toNat_add, hshr]
  show ((((len.toNat % 2 ^ 30 + 8) % 2 ^ 32 + 7) % 2 ^ 32) / 8 * 8) % 2 ^ 32 = _
  omega

theorem toNat_totalSize {size : UInt64} (h : size.toNat + 15 < 2 ^ 64)
    : (totalSize size).toNat = total size.toNat := by
  unfold totalSize total
  simp only [UInt64.toNat_mul, UInt64.toNat_div, UInt64.toNat_add]
  show ((((size.toNat + 8) % 2 ^ 64 + 7) % 2 ^ 64) / 8 * 8) % 2 ^ 64 = _
  omega

theorem flags_clear_iff (size : UInt64)
    : size &&& (BPF_RINGBUF_BUSY_BIT ||| BPF_RINGBUF_DISCARD_BIT).toUInt64 = 0
        ↔
      size.toNat / 2 ^ 31 % 2 = 0 ∧ size.toNat / 2 ^ 30 % 2 = 0 := by
  rw [← UInt64.toNat_inj, UInt64.toNat_and]
  show size.toNat &&& (2 ^ 31 ||| 2 ^ 30) = 0 ↔ _
  rw [Nat.and_or_distrib_left, Nat.or_eq_zero_iff, Nat.and_two_pow, Nat.and_two_pow]
  rw [Nat.testBit_eq_decide_div_mod_eq, Nat.testBit_eq_decide_div_mod_eq]
  simp

theorem cap_le_or_eq : cap p ≤ 2 ^ 30 ∨ cap p = 2 ^ 31 := by
  rcases p.isPowerOfTwo with ⟨k, hk⟩
  have hlt := @cap_lt p
  unfold cap at *
  rw [hk] at hlt ⊢
  have hk32 : k < 32 := (Nat.pow_lt_pow_iff_right (by decide)).mp hlt
  rcases Nat.lt_or_ge k 31 with hk31 | hk31
  . left
    apply Nat.pow_le_pow_right (by decide)
    omega
  . right
    rw [show k = 31 by omega]

theorem construct_len_eq
    : (construct p).rawBuffer.len = (p.pageSize * 2 % 2 ^ 32 + cap p * 2 % 2 ^ 32) % 2 ^ 32 := by
  unfold construct
  dsimp only
  rw [UInt32.toNat_add, UInt32.toNat_ofNat', UInt32.toNat_mul]
  rfl

theorem construct_len_of_le (h : cap p ≤ 2 ^ 30)
    : (construct p).rawBuffer.len = data p + 2 * cap p := by
  have hpage := p.pageSize_le
  rw [construct_len_eq]
  unfold data
  omega

theorem construct_len (h : cap p = 2 ^ 31) : (construct p).rawBuffer.len = data p := by
  have hpage := p.pageSize_le
  rw [construct_len_eq, h]
  unfold data
  omega

end Bpftime.RingbufMap
