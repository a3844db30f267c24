import Bpftime.BpfMap.HashMap.Lemmas.Prime

namespace Bpftime.HashMap

namespace Word

inductive Fault where
  | overflow
  | outOfFuel
  deriving DecidableEq, Repr

def add (a b : UInt64) : Except Fault UInt64 :=
  if a.toNat + b.toNat < 2 ^ 64 then .ok (a + b) else .error .overflow

def mul (a b : UInt64) : Except Fault UInt64 :=
  if a.toNat * b.toNat < 2 ^ 64 then .ok (a * b) else .error .overflow

def isPrime (fuel : ℕ) (n : UInt64) : Except Fault Bool :=
  if n ≤ 1 then
    .ok false
  else if n ≤ 3 then
    .ok true
  else if n % 2 = 0 ∨ n % 3 = 0 then
    .ok false
  else
    go fuel 5
where
  go : ℕ → UInt64 → Except Fault Bool
    | 0, _ => .error .outOfFuel
    | fuel + 1, i => do
      let square ← mul i i
      if square ≤ n then
        if n % i = 0 then
          return false
        else if n % (← add i 2) = 0 then
          return false
        else
          go fuel (← add i 6)
      else
        return true

def nextPrime (fuel : ℕ) (n : UInt64) : Except Fault UInt64 :=
  go fuel n
where
  go : ℕ → UInt64 → Except Fault UInt64
    | 0, _ => .error .outOfFuel
    | rounds + 1, n => do
      if ← isPrime fuel n then
        return n
      else
        go rounds (← add n 1)

def probe (numBuckets startIndex : UInt64) : ℕ → UInt64 → Option (List UInt64)
  | 0, _ => none
  | fuel + 1, index =>
    let next := (index + 1) % numBuckets
    if next = startIndex then
      some [index]
    else
      (probe numBuckets startIndex fuel next).map (index :: ·)

section Arithmetic

variable {a b : UInt64}

theorem add_eq (h : a.toNat + b.toNat < 2 ^ 64) : add a b = .ok (a + b) := if_pos h

theorem mul_eq (h : a.toNat * b.toNat < 2 ^ 64) : mul a b = .ok (a * b) := if_pos h

theorem toNat_add_of_lt (h : a.toNat + b.toNat < 2 ^ 64) : (a + b).toNat = a.toNat + b.toNat := by
  rw [UInt64.toNat_add, Nat.mod_eq_of_lt h]

theorem toNat_mul_of_lt (h : a.toNat * b.toNat < 2 ^ 64) : (a * b).toNat = a.toNat * b.toNat := by
  rw [UInt64.toNat_mul, Nat.mod_eq_of_lt h]

theorem mod_eq_zero_iff : a % b = 0 ↔ b.toNat ∣ a.toNat := by
  rw [← UInt64.toNat_inj, UInt64.toNat_mod, Nat.dvd_iff_mod_eq_zero]
  rfl

end Arithmetic

section Prime

variable {n : UInt64}

theorem isPrime.go_spec (hn : 2 ≤ n.toNat) (hbound : n.toNat < 2 ^ 34) (fuel : ℕ)
    : ∀ i : UInt64, i.toNat % 6 = 5 → i.toNat < 2 ^ 17 + 6 → 0 < fuel →
        n.toNat < i.toNat + 6 * fuel → (∀ e, 2 ≤ e → e < i.toNat → ¬ e ∣ n.toNat) →
        isPrime.go n fuel i = .ok (decide n.toNat.Prime) := by
  induction fuel with
  | zero =>
    intro i _ _ hfuel
    omega
  | succ fuel ih =>
    intro i hi hsmall _ hfuel hnot
    have hsquare : i.toNat * i.toNat < 2 ^ 64 := by nlinarith
    have h2 : (i + 2).toNat = i.toNat + 2 := toNat_add_of_lt (by simp; omega)
    have h6 : (i + 6).toNat = i.toNat + 6 := toNat_add_of_lt (by simp; omega)
    unfold go
    rw [mul_eq hsquare]
    simp only [bind, Except.bind, pure, Except.pure]
    simp only [UInt64.le_iff_toNat_le, toNat_mul_of_lt hsquare, mod_eq_zero_iff]
    split
    next hle =>
      split
      next hdvd =>
        rw [decide_eq_false (not_prime_of_dvd (by omega) hle (by omega) (by omega) hdvd)]
      next hdvd =>
        rw [add_eq (by simp; omega)]
        simp only [h2]
        split
        next hdvd2 =>
          rw [decide_eq_false (not_prime_of_dvd (by omega) hle (by omega) (by omega) hdvd2)]
        next hdvd2 =>
          rw [add_eq (by simp; omega)]
          apply ih
          . omega
          . rw [h6]
            nlinarith
          . have hfive : 5 * i.toNat ≤ i.toNat * i.toNat := Nat.mul_le_mul_right _ (by omega)
            omega
          . omega
          . intro e he hei
            rw [h6] at hei
            exact not_dvd_of_mod_six hi hnot hdvd hdvd2 he hei
    next hle => rw [decide_eq_true (prime_of_not_dvd hn (by omega) hnot)]

theorem isPrime_eq {fuel : ℕ} (hbound : n.toNat < 2 ^ 34) (hfuel : n.toNat < fuel)
    : isPrime fuel n = .ok (decide n.toNat.Prime) := by
  have hiff := isPrime_iff n.toNat
  unfold isPrime
  unfold HashMap.isPrime at hiff
  simp only [UInt64.le_iff_toNat_le, mod_eq_zero_iff, UInt64.reduceToNat]
  simp only [← Nat.dvd_iff_mod_eq_zero] at hiff
  split
  next h1 =>
    rw [if_pos h1] at hiff
    rw [decide_eq_false (by simpa using hiff)]
  next h1 =>
    rw [if_neg h1] at hiff
    split
    next h3 =>
      rw [if_pos h3] at hiff
      rw [decide_eq_true (by simpa using hiff)]
    next h3 =>
      rw [if_neg h3] at hiff
      split
      next hdvd =>
        rw [if_pos hdvd] at hiff
        rw [decide_eq_false (by simpa using hiff)]
      next hdvd =>
        apply isPrime.go_spec (by omega) hbound
        . rfl
        . decide
        . omega
        . omega
        . intro e he he5
          have he5' : e < 5 := he5
          have : e = 2 ∨ e = 3 ∨ e = 4 := by omega
          rcases this with rfl | rfl | rfl
          all_goals
            omega

theorem nextPrime.go_spec {fuel q : ℕ} (hq : q.Prime) (hbound : q < 2 ^ 34) (hfuel : q < fuel)
    (rounds : ℕ)
    : ∀ n : UInt64, n.toNat ≤ q → q < n.toNat + rounds → (∀ r, n.toNat ≤ r → r < q → ¬ r.Prime) →
        nextPrime.go fuel rounds n = .ok (.ofNat q) := by
  induction rounds with
  | zero =>
    intro n hle hlt
    omega
  | succ rounds ih =>
    intro n hle hlt hleast
    unfold go
    rw [isPrime_eq (by omega) (by omega)]
    simp only [bind, Except.bind, pure, Except.pure]
    by_cases hn : n.toNat = q
    . rw [hn, if_pos (decide_eq_true hq), ← hn, UInt64.ofNat_toNat]
    . have hnot := hleast n.toNat (Nat.le_refl _) (by omega)
      have hadd : n.toNat + (1 : UInt64).toNat < 2 ^ 64 := by
        change n.toNat + 1 < 2 ^ 64
        omega
      have hnext : (n + 1).toNat = n.toNat + 1 := toNat_add_of_lt hadd
      rw [if_neg (by simpa using hnot), add_eq hadd]
      apply ih
      . omega
      . omega
      . intro r hr
        apply hleast
        omega

theorem nextPrime_eq {fuel : ℕ} (hn : n.toNat < 2 ^ 32) (hfuel : 2 * n.toNat + 3 ≤ fuel)
    : nextPrime fuel n = .ok (.ofNat (HashMap.nextPrime n.toNat))
        ∧ HashMap.nextPrime n.toNat ≤ 2 * n.toNat + 2 := by
  obtain ⟨hprime, hle, hleast⟩ := nextPrime_spec n.toNat
  have hnear : HashMap.nextPrime n.toNat ≤ 2 * n.toNat + 2 := by
    by_contra hfar
    obtain ⟨r, hr, hlt, hr2⟩ := Nat.exists_prime_lt_and_le_two_mul (n.toNat + 1) (by omega)
    exact hleast r (by omega) (by omega) hr
  refine ⟨?_, hnear⟩
  exact nextPrime.go_spec hprime (by omega) (by omega) fuel n hle (by omega) hleast

end Prime

section Probe

variable {numBuckets startIndex : UInt64}

theorem toNat_next (hsize : numBuckets.toNat < 2 ^ 63) {index : UInt64} (d : ℕ)
    (hindex : index.toNat = (startIndex.toNat + d) % numBuckets.toNat) (hpos : 0 < numBuckets.toNat)
    : ((index + 1) % numBuckets).toNat = (startIndex.toNat + (d + 1)) % numBuckets.toNat := by
  have hlt := Nat.mod_lt (startIndex.toNat + d) hpos
  have hadd : (index + 1).toNat = index.toNat + 1 := by
    apply toNat_add_of_lt
    change index.toNat + 1 < 2 ^ 64
    omega
  rw [UInt64.toNat_mod, hadd, hindex, LinearProbe.next_eq]

theorem probe_from (hsize : numBuckets.toNat < 2 ^ 63) (hstart : startIndex.toNat < numBuckets.toNat)
    (left : ℕ)
    : ∀ d fuel, d + left + 1 = numBuckets.toNat → left < fuel → ∀ index : UInt64,
        index.toNat = (startIndex.toNat + d) % numBuckets.toNat →
        ∃ visited, probe numBuckets startIndex fuel index = some visited
          ∧ visited.map UInt64.toNat
            = (List.range' d (left + 1)).map fun k => (startIndex.toNat + k) % numBuckets.toNat := by
  induction left with
  | zero =>
    intro d fuel hd hfuel index hindex
    obtain ⟨fuel, rfl⟩ := Nat.exists_eq_succ_of_ne_zero (Nat.ne_of_gt hfuel)
    have hnext := toNat_next hsize d hindex (by omega)
    have hback : (index + 1) % numBuckets = startIndex := by
      rw [← UInt64.toNat_inj, hnext, LinearProbe.next_eq_start_iff hstart (by omega)]
      omega
    refine ⟨[index], if_pos hback, ?_⟩
    simp [hindex]
  | succ left ih =>
    intro d fuel hd hfuel index hindex
    obtain ⟨fuel, rfl⟩ := Nat.exists_eq_succ_of_ne_zero (Nat.ne_zero_of_lt hfuel)
    have hnext := toNat_next hsize d hindex (by omega)
    have hon : (index + 1) % numBuckets ≠ startIndex := by
      rw [ne_eq, ← UInt64.toNat_inj, hnext, LinearProbe.next_eq_start_iff hstart (by omega)]
      omega
    obtain ⟨visited, hvisited, hmap⟩ := ih (d + 1) fuel (by omega) (by omega) _ hnext
    refine ⟨index :: visited, ?_, ?_⟩
    . unfold probe
      rw [if_neg hon, hvisited]
      rfl
    . rw [List.map_cons, hmap, List.range'_succ (s := d), List.map_cons, hindex]

theorem probe_eq (hsize : numBuckets.toNat < 2 ^ 63) (hstart : startIndex.toNat < numBuckets.toNat)
    {fuel : ℕ} (hfuel : numBuckets.toNat ≤ fuel)
    : ∃ visited, probe numBuckets startIndex fuel startIndex = some visited
        ∧ visited.map UInt64.toNat
          = (List.range numBuckets.toNat).map fun k =>
              (startIndex.toNat + k) % numBuckets.toNat := by
  have hindex : startIndex.toNat = (startIndex.toNat + 0) % numBuckets.toNat := by
    rw [Nat.add_zero, Nat.mod_eq_of_lt hstart]
  obtain ⟨visited, hvisited, hmap⟩ := probe_from hsize hstart (numBuckets.toNat - 1) 0 fuel
    (by omega) (by omega) startIndex hindex
  refine ⟨visited, hvisited, ?_⟩
  rw [hmap, List.range_eq_range']
  congr 2
  omega

theorem nodup_scan {n start : ℕ} : ((List.range n).map fun k => (start + k) % n).Nodup := by
  rw [List.nodup_map_iff_inj_on List.nodup_range]
  intro d hd e he heq
  rw [List.mem_range] at hd he
  exact LinearProbe.eq_of_add_mod_eq hd he heq

theorem mem_scan_iff {n start : ℕ} (hstart : start < n) (b : ℕ)
    : b ∈ (List.range n).map (fun k => (start + k) % n) ↔ b < n := by
  rw [List.mem_map]
  constructor
  . rintro ⟨k, _, rfl⟩
    apply Nat.mod_lt
    omega
  . intro hb
    refine ⟨LinearProbe.dist n start b, ?_, LinearProbe.add_dist hstart hb⟩
    rw [List.mem_range]
    exact LinearProbe.dist_lt (by omega)

theorem probe_visits_all (hsize : numBuckets.toNat < 2 ^ 63)
    (hstart : startIndex.toNat < numBuckets.toNat) {fuel : ℕ} (hfuel : numBuckets.toNat ≤ fuel)
    : ∃ visited, probe numBuckets startIndex fuel startIndex = some visited
        ∧ visited.Nodup ∧ ∀ b, b ∈ visited ↔ b < numBuckets := by
  obtain ⟨visited, hvisited, hmap⟩ := probe_eq hsize hstart hfuel
  refine ⟨visited, hvisited, ?_, ?_⟩
  . apply List.Nodup.of_map UInt64.toNat
    rw [hmap]
    exact nodup_scan
  . intro b
    rw [UInt64.lt_iff_toNat_lt, ← mem_scan_iff hstart, ← hmap]
    exact (List.mem_map_of_injective fun _ _ => UInt64.toNat_inj.mp).symm

end Probe

theorem nextPrime_least_and_probe_visits_all (n : UInt64) (hn : n.toNat < 2 ^ 32)
    : ∃ numBuckets, (∃ enough, ∀ fuel ≥ enough, nextPrime fuel n = .ok numBuckets)
        ∧ IsLeast {q | q.Prime ∧ n.toNat ≤ q} numBuckets.toNat
        ∧ ∀ startIndex < numBuckets, ∃ enough, ∀ fuel ≥ enough,
          ∃ visited, probe numBuckets startIndex fuel startIndex = some visited
            ∧ visited.Nodup ∧ ∀ b, b ∈ visited ↔ b < numBuckets := by
  obtain ⟨hprime, hle, hleast⟩ := nextPrime_spec n.toNat
  obtain ⟨_, hnear⟩ := nextPrime_eq hn (Nat.le_refl _)
  have htoNat : (UInt64.ofNat (HashMap.nextPrime n.toNat)).toNat = HashMap.nextPrime n.toNat :=
    UInt64.toNat_ofNat_of_lt' (by change _ < 2 ^ 64; omega)
  refine ⟨.ofNat (HashMap.nextPrime n.toNat), ⟨_, fun fuel hfuel => (nextPrime_eq hn hfuel).1⟩,
    ?_, ?_⟩
  . rw [htoNat]
    refine ⟨⟨hprime, hle⟩, ?_⟩
    intro q hq
    by_contra hlt
    exact hleast q hq.2 (by omega) hq.1
  . intro startIndex hstart
    refine ⟨_, fun fuel hfuel => probe_visits_all ?_ (UInt64.lt_iff_toNat_lt.mp hstart) hfuel⟩
    rw [htoNat]
    omega

theorem nextPrime_least_and_probe_visits_all_eight
    : ∃ numBuckets, (∃ enough, ∀ fuel ≥ enough, nextPrime fuel 8 = .ok numBuckets)
        ∧ IsLeast {q | q.Prime ∧ 8 ≤ q} numBuckets.toNat
        ∧ ∀ startIndex < numBuckets, ∃ enough, ∀ fuel ≥ enough,
          ∃ visited, probe numBuckets startIndex fuel startIndex = some visited
            ∧ visited.Nodup ∧ ∀ b, b ∈ visited ↔ b < numBuckets :=
  nextPrime_least_and_probe_visits_all 8 (by decide)

end Word

end Bpftime.HashMap
