import Mathlib.Data.List.Basic

/-!
This module contains the two operations on a byte buffer that a C++ vector of bytes is used with:
changing its length and copying bytes into it at an offset.
-/

namespace Bytes

variable {α : Type}

def resize [Inhabited α] (buf : List α) (n : Nat) : List α :=
  buf.take n ++ List.replicate (n - buf.length) default

def overwrite (buf : List α) (off : Nat) (src : List α) : List α :=
  buf.take off ++ src ++ buf.drop (off + src.length)

@[simp]
theorem length_resize [Inhabited α] (buf : List α) (n : Nat) : (resize buf n).length = n := by
  simp only [resize, List.length_append, List.length_take, List.length_replicate]
  omega

@[simp]
theorem length_overwrite (buf : List α) (off : Nat) (src : List α)
    (h : off + src.length ≤ buf.length)
    : (overwrite buf off src).length = buf.length := by
  simp only [overwrite, List.length_append, List.length_take, List.length_drop]
  omega

theorem take_resize [Inhabited α] (buf : List α) (n m : Nat) (h : m ≤ n) (hm : m ≤ buf.length)
    : (resize buf n).take m = buf.take m := by
  unfold resize
  rw [List.take_append_of_le_length]
  . rw [List.take_take]
    congr 1
    omega
  . simp only [List.length_take]
    omega

theorem take_overwrite (buf : List α) (off : Nat) (src : List α) (h : off ≤ buf.length)
    : (overwrite buf off src).take off = buf.take off := by
  unfold overwrite
  have hlen : (buf.take off).length = off := by
    simp only [List.length_take]
    omega
  rw [List.append_assoc, List.take_append_of_le_length (by omega)]
  rw [List.take_take, Nat.min_self]

theorem take_drop_overwrite (buf : List α) (off : Nat) (src : List α) (h : off ≤ buf.length)
    : ((overwrite buf off src).drop off).take src.length = src := by
  unfold overwrite
  have hlen : (buf.take off).length = off := by
    simp only [List.length_take]
    omega
  rw [List.append_assoc, List.drop_append_of_le_length (by omega), List.drop_of_length_le (by omega)]
  simp

theorem getElem?_overwrite (buf : List α) (off : Nat) (src : List α)
    (h : off + src.length ≤ buf.length) (i : Nat)
    : (overwrite buf off src)[i]?
        =
      if off ≤ i ∧ i < off + src.length then src[i - off]? else buf[i]? := by
  have hlen : (buf.take off).length = off := by
    simp only [List.length_take]
    omega
  unfold overwrite
  rw [List.append_assoc]
  by_cases hlo : i < off
  . rw [List.getElem?_append_left (by omega), List.getElem?_take_of_lt hlo, if_neg (by omega)]
  . rw [List.getElem?_append_right (by omega), hlen]
    by_cases hhi : i < off + src.length
    . rw [List.getElem?_append_left (by omega), if_pos (by omega)]
    . rw [List.getElem?_append_right (by omega), List.getElem?_drop, if_neg (by omega)]
      congr 1
      omega

def slice (buf : List α) (off n : Nat) : List α := (buf.drop off).take n

theorem getElem?_slice (buf : List α) (off n i : Nat)
    : (slice buf off n)[i]? = if i < n then buf[off + i]? else none := by
  unfold slice
  rw [List.getElem?_take, List.getElem?_drop]

theorem slice_overwrite_of_disjoint {buf : List α} {off n : Nat} {src : List α}
    (h : off + src.length ≤ buf.length) {off' : Nat}
    (hdisj : off' + n ≤ off ∨ off + src.length ≤ off')
    : slice (overwrite buf off src) off' n = slice buf off' n := by
  apply List.ext_getElem?
  intro i
  rw [getElem?_slice, getElem?_slice, getElem?_overwrite _ _ _ h]
  split
  next hi => rw [if_neg (by omega)]
  next => rfl

theorem slice_overwrite_self {buf : List α} {off : Nat} {src : List α} (h : off ≤ buf.length)
    : slice (overwrite buf off src) off src.length = src :=
  take_drop_overwrite buf off src h

theorem overwrite_slice (buf : List α) (off n : Nat) (h : off + n ≤ buf.length)
    : overwrite buf off (slice buf off n) = buf := by
  have hlen : (slice buf off n).length = n := by
    unfold slice
    rw [List.length_take, List.length_drop]
    omega
  unfold overwrite
  rw [hlen]
  unfold slice
  rw [← List.drop_drop, List.append_assoc, List.take_append_drop, List.take_append_drop]

end Bytes
