import Mathlib.Algebra.Group.Nat.Defs
import Mathlib.Logic.Function.Basic

/-!
This module contains a byte memory with 64-bit addresses: putting a block of bytes at an address,
and the loops that copy a block byte by byte upwards or downwards.
-/

namespace WordMem

abbrev Mem := UInt64 → UInt8

def shift (a : UInt64) (i : ℕ) : UInt64 := a + UInt64.ofNat i

def put (m : Mem) (a : UInt64) (bytes : ℕ → UInt8) (n : ℕ) : Mem :=
  fun x => if (x - a).toNat < n then bytes (x - a).toNat else m x

def copyUp (m : Mem) (d s : UInt64) (n : ℕ) : Mem :=
  (List.range n).foldl (fun m i => Function.update m (shift d i) (m (shift s i))) m

def copyDown (m : Mem) (d s : UInt64) (n : ℕ) : Mem :=
  (List.range n).foldr (fun i m => Function.update m (shift d i) (m (shift s i))) m

def fill (m : Mem) (a : UInt64) (b : UInt8) (n : ℕ) : Mem :=
  (List.range n).foldl (fun m i => Function.update m (shift a i) b) m

variable {m : Mem} {a d s x : UInt64} {bytes : ℕ → UInt8} {n i : ℕ}

theorem shift_add (a : UInt64) (i j : ℕ) : shift (shift a i) j = shift a (i + j) := by
  unfold shift
  rw [UInt64.ofNat_add, UInt64.add_assoc]

theorem shift_toNat_sub (a x : UInt64) : shift a (x - a).toNat = x := by
  unfold shift
  rw [UInt64.ofNat_toNat, UInt64.add_comm, UInt64.sub_add_cancel]

theorem toNat_shift_sub (hi : i < 2 ^ 64) : (shift a i - a).toNat = i := by
  unfold shift
  rw [UInt64.add_comm, UInt64.add_sub_cancel, UInt64.toNat_ofNat']
  exact Nat.mod_eq_of_lt hi

theorem toNat_shift (h : a.toNat + i < 2 ^ 64) : (shift a i).toNat = a.toNat + i := by
  unfold shift
  rw [UInt64.toNat_add, UInt64.toNat_ofNat', Nat.add_mod_mod]
  exact Nat.mod_eq_of_lt h

theorem put_shift (hi : i < n) (hn : n ≤ 2 ^ 64) : put m a bytes n (shift a i) = bytes i := by
  unfold put
  rw [toNat_shift_sub (by omega), if_pos hi]

theorem put_of_ne (h : ∀ i < n, x ≠ shift a i) : put m a bytes n x = m x := by
  unfold put
  rw [if_neg]
  intro hlt
  exact h _ hlt (shift_toNat_sub a x).symm

theorem put_congr {bytes' : ℕ → UInt8} (h : ∀ i < n, bytes i = bytes' i)
    : put m a bytes n = put m a bytes' n := by
  funext x
  unfold put
  split
  next hlt => exact h _ hlt
  next => rfl

theorem put_zero (m : Mem) (a : UInt64) (bytes : ℕ → UInt8) : put m a bytes 0 = m := by
  funext x
  apply put_of_ne
  intro i hi
  omega

theorem put_succ (hn : n < 2 ^ 64)
    : put m a bytes (n + 1) = Function.update (put m a bytes n) (shift a n) (bytes n) := by
  funext x
  by_cases heq : x = shift a n
  . rw [heq, Function.update_self, put_shift (by omega) (by omega)]
  . rw [Function.update_of_ne heq]
    unfold put
    have hne : (x - a).toNat ≠ n := by
      intro hn
      apply heq
      rw [← hn, shift_toNat_sub]
    by_cases hlt : (x - a).toNat < n
    . rw [if_pos hlt, if_pos (by omega)]
    . rw [if_neg hlt, if_neg (by omega)]

theorem put_update (hn : n < 2 ^ 64) {b : UInt8}
    : put (Function.update m (shift a n) b) a bytes n = Function.update (put m a bytes n) (shift a n) b := by
  funext x
  by_cases heq : x = shift a n
  . rw [heq, Function.update_self]
    unfold put
    rw [toNat_shift_sub hn, if_neg (by omega), Function.update_self]
  . rw [Function.update_of_ne heq]
    unfold put
    rw [Function.update_of_ne heq]

theorem fill_eq_put (hn : n ≤ 2 ^ 64) (b : UInt8) : fill m a b n = put m a (fun _ => b) n := by
  induction n with
  | zero =>
    rw [put_zero]
    rfl
  | succ n ih =>
    have hn' := ih (by omega)
    unfold fill at hn' ⊢
    rw [List.range_succ, List.foldl_append, hn', put_succ (by omega)]
    rfl

theorem copyUp_eq_put (hn : n ≤ 2 ^ 64) (h : ∀ i < n, ∀ j < i, shift s i ≠ shift d j)
    : copyUp m d s n = put m d (fun i => m (shift s i)) n := by
  induction n with
  | zero =>
    rw [put_zero]
    rfl
  | succ n ih =>
    have hn' : copyUp m d s n = put m d (fun i => m (shift s i)) n := by
      apply ih (by omega)
      intro i hi
      exact h i (by omega)
    unfold copyUp at hn' ⊢
    rw [List.range_succ, List.foldl_append, hn', put_succ (by omega)]
    simp only [List.foldl_cons, List.foldl_nil]
    rw [put_of_ne (h n (by omega))]

theorem copyDown_eq_put (hn : n ≤ 2 ^ 64) (h : ∀ i < n, ∀ j < i, shift s j ≠ shift d i)
    : copyDown m d s n = put m d (fun i => m (shift s i)) n := by
  induction n generalizing m with
  | zero =>
    rw [put_zero]
    rfl
  | succ n ih =>
    have hn' (m' : Mem) : copyDown m' d s n = put m' d (fun i => m' (shift s i)) n := by
      apply ih (by omega)
      intro i hi
      exact h i (by omega)
    unfold copyDown at hn' ⊢
    rw [List.range_succ, List.foldr_append]
    simp only [List.foldr_cons, List.foldr_nil]
    rw [hn', put_update (by omega), put_succ (by omega)]
    congr 1
    funext x
    unfold put
    split
    next hlt =>
      dsimp only
      rw [Function.update_of_ne]
      exact h n (by omega) _ hlt
    next => rfl

theorem shift_inj {j : ℕ} (hi : i < 2 ^ 64) (hj : j < 2 ^ 64) (h : shift a i = shift a j) : i = j := by
  rw [← @toNat_shift_sub a i hi, ← @toNat_shift_sub a j hj, h]

def move (m : Mem) (d s : UInt64) (n : ℕ) : Mem := put m d (fun i => m (shift s i)) n

section Moved

variable {m₀ : Mem} {lo hi : ℕ}

structure Moved (m₀ m : Mem) (d : UInt64) (bytes : ℕ → UInt8) (lo hi : ℕ) : Prop where
  copied : ∀ i, lo ≤ i → i < hi → m (shift d i) = bytes i
  frame : ∀ x, (∀ i, lo ≤ i → i < hi → x ≠ shift d i) → m x = m₀ x

theorem moved_empty (m : Mem) (d : UInt64) (bytes : ℕ → UInt8) (k : ℕ) : Moved m m d bytes k k := by
  constructor
  . intro i hlo hhi
    omega
  . intro x _
    rfl

theorem Moved.join (h : Moved m₀ m d bytes lo hi) {lo' hi' t c : ℕ} (hhi : hi' ≤ 2 ^ 64)
    (hjoin : ∀ i, lo' ≤ i ∧ i < hi' ↔ (lo ≤ i ∧ i < hi) ∨ (t ≤ i ∧ i < t + c))
    : Moved m₀ (put m (shift d t) (fun i => bytes (t + i)) c) d bytes lo' hi' := by
  have hchunk (j : ℕ) (hj : j < c) : t + j < hi' := ((hjoin (t + j)).mpr (by omega)).2
  have hc : c ≤ 2 ^ 64 := by
    rcases Nat.eq_zero_or_pos c with hc | hc
    . omega
    . have := hchunk (c - 1) (by omega)
      omega
  constructor
  . intro i hlo' hhi'
    by_cases hin : t ≤ i ∧ i < t + c
    . have heq : shift d i = shift (shift d t) (i - t) := by
        rw [shift_add]
        congr 1
        omega
      rw [heq, put_shift (by omega) hc]
      congr 1
      omega
    . rw [put_of_ne]
      . have hold := (hjoin i).mp ⟨hlo', hhi'⟩
        apply h.copied
        . omega
        . omega
      . intro j hj heq
        rw [shift_add] at heq
        have := hchunk j hj
        have := shift_inj (by omega) (by omega) heq
        omega
  . intro x hx
    rw [put_of_ne]
    . apply h.frame
      intro i hlo hhi
      have hnew := (hjoin i).mpr (Or.inl ⟨hlo, hhi⟩)
      exact hx i hnew.1 hnew.2
    . intro j hj
      rw [shift_add]
      have hnew := (hjoin (t + j)).mpr (Or.inr (by omega))
      exact hx (t + j) hnew.1 hnew.2

theorem Moved.eq_put (h : Moved m₀ m d bytes 0 n) (hn : n ≤ 2 ^ 64) : m = put m₀ d bytes n := by
  funext x
  by_cases hx : ∀ i < n, x ≠ shift d i
  . rw [put_of_ne hx]
    apply h.frame
    intro i _ hi
    exact hx i hi
  . simp only [not_forall, not_not] at hx
    rcases hx with ⟨i, hi, rfl⟩
    rw [put_shift hi hn]
    exact h.copied i (by omega) hi

end Moved

end WordMem
