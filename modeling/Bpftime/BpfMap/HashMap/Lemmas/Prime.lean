import Bpftime.BpfMap.HashMap.Impl
import Mathlib.NumberTheory.Bertrand

namespace Bpftime.HashMap

theorem not_dvd_of_mod_six {n i d : Nat} (hi : i % 6 = 5)
    (hsmall : ∀ e, 2 ≤ e → e < i → ¬ e ∣ n) (h0 : ¬ i ∣ n) (h2 : ¬ (i + 2) ∣ n)
    (hd : 2 ≤ d) (hdi : d < i + 6)
    : ¬ d ∣ n := by
  intro hdvd
  have hnot2 : ¬ 2 ∣ n := hsmall 2 (by omega) (by omega)
  have hnot3 : ¬ 3 ∣ n := hsmall 3 (by omega) (by omega)
  rcases Nat.lt_or_ge d i with hlt | hge
  . exact hsmall d hd hlt hdvd
  . -- Between two checked candidates lie only multiples of two and of three.
    have hcases : d = i ∨ d = i + 2 ∨ 2 ∣ d ∨ 3 ∣ d := by omega
    rcases hcases with heq | heq | hdvd2 | hdvd3
    . rw [heq] at hdvd
      contradiction
    . rw [heq] at hdvd
      contradiction
    . exact hnot2 (Nat.dvd_trans hdvd2 hdvd)
    . exact hnot3 (Nat.dvd_trans hdvd3 hdvd)

theorem not_prime_of_dvd {n i d : Nat} (hi5 : 5 ≤ i) (hle : i * i ≤ n) (hd : 2 ≤ d)
    (hdi : d ≤ i + 2) (hdvd : d ∣ n)
    : ¬ n.Prime := by
  apply Nat.not_prime_of_dvd_of_lt hdvd hd
  nlinarith

theorem prime_of_not_dvd {n i : Nat} (hn : 2 ≤ n) (hlt : n < i * i)
    (hsmall : ∀ e, 2 ≤ e → e < i → ¬ e ∣ n)
    : n.Prime := by
  rw [Nat.prime_def_le_sqrt]
  refine ⟨hn, ?_⟩
  intro e he hsqrt
  apply hsmall e he
  rw [Nat.le_sqrt] at hsqrt
  nlinarith

theorem isPrime.go_iff {n : Nat} (hn : 2 ≤ n) (fuel : Nat)
    : ∀ i, i % 6 = 5 → 5 ≤ i → n < (i + 6 * fuel) * (i + 6 * fuel) →
        (∀ e, 2 ≤ e → e < i → ¬ e ∣ n) → (isPrime.go n fuel i = true ↔ n.Prime) := by
  induction fuel with
  | zero =>
    intro i hi hi5 hfuel hsmall
    unfold go
    simp only [true_iff]
    exact prime_of_not_dvd hn hfuel hsmall
  | succ fuel ih =>
    intro i hi hi5 hfuel hsmall
    unfold go
    split
    next hle =>
      split
      next hdvd =>
        simp only [Bool.false_eq_true, false_iff]
        rw [← Nat.dvd_iff_mod_eq_zero, ← Nat.dvd_iff_mod_eq_zero] at hdvd
        rcases hdvd with hdvd | hdvd <;> exact not_prime_of_dvd hi5 hle (by omega) (by omega) hdvd
      next hdvd =>
        rw [← Nat.dvd_iff_mod_eq_zero, ← Nat.dvd_iff_mod_eq_zero, not_or] at hdvd
        apply ih
        . omega
        . omega
        . have : i + 6 + 6 * fuel = i + 6 * (fuel + 1) := by omega
          rw [this]
          exact hfuel
        . intro e he hei
          exact not_dvd_of_mod_six hi hsmall hdvd.1 hdvd.2 he hei
    next hle =>
      simp only [true_iff]
      exact prime_of_not_dvd hn (by omega) hsmall

theorem isPrime_iff (n : Nat) : isPrime n = true ↔ n.Prime := by
  unfold isPrime
  split
  next h =>
    simp only [Bool.false_eq_true, false_iff]
    intro hp
    have := hp.two_le
    omega
  next h =>
    split
    next h3 =>
      have : n = 2 ∨ n = 3 := by omega
      rcases this with rfl | rfl
      . simp [Nat.prime_two]
      . simp [Nat.prime_three]
    next h3 =>
      split
      next hdvd =>
        simp only [Bool.false_eq_true, false_iff]
        rw [← Nat.dvd_iff_mod_eq_zero, ← Nat.dvd_iff_mod_eq_zero] at hdvd
        rcases hdvd with hdvd | hdvd <;> exact Nat.not_prime_of_dvd_of_lt hdvd (by omega) (by omega)
      next hdvd =>
        apply isPrime.go_iff (by omega)
        . rfl
        . omega
        . nlinarith
        . intro e he hei
          have : e = 2 ∨ e = 3 ∨ e = 4 := by omega
          rcases this with rfl | rfl | rfl
          all_goals
            omega

theorem nextPrime.go_spec (fuel : Nat) : ∀ n, (∃ q, q.Prime ∧ n ≤ q ∧ q ≤ n + fuel) →
        (nextPrime.go fuel n).Prime ∧ n ≤ nextPrime.go fuel n
          ∧ ∀ q, n ≤ q → q < nextPrime.go fuel n → ¬ q.Prime := by
  induction fuel with
  | zero =>
    rintro n ⟨q, hq, hnq, hqn⟩
    have : q = n := by omega
    subst this
    unfold go
    refine ⟨hq, Nat.le_refl _, ?_⟩
    omega
  | succ fuel ih =>
    rintro n ⟨q, hq, hnq, hqn⟩
    unfold go
    split
    next h =>
      rw [isPrime_iff] at h
      refine ⟨h, Nat.le_refl _, ?_⟩
      omega
    next h =>
      rw [isPrime_iff] at h
      have hne : q ≠ n := by
        rintro rfl
        contradiction
      rcases ih (n + 1) ⟨q, hq, by omega, by omega⟩ with ⟨hprime, hle, hleast⟩
      refine ⟨hprime, by omega, ?_⟩
      intro r hr hlt
      rcases Nat.eq_or_lt_of_le hr with rfl | hgt
      . exact h
      . exact hleast r hgt hlt

theorem nextPrime_spec (n : Nat)
    : (nextPrime n).Prime ∧ n ≤ nextPrime n ∧ ∀ q, n ≤ q → q < nextPrime n → ¬ q.Prime := by
  apply nextPrime.go_spec
  cases n with
  | zero =>
    exact ⟨2, Nat.prime_two, by omega, by omega⟩
  | succ n =>
    rcases Nat.exists_prime_lt_and_le_two_mul (n + 1) (by omega) with ⟨q, hq, hlt, hle⟩
    exists q
    refine ⟨hq, by omega, by omega⟩

theorem nextPrime_pos (n : Nat) : 0 < nextPrime n := (nextPrime_spec n).1.pos

end Bpftime.HashMap
