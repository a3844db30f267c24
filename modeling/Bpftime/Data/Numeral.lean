import Mathlib.Data.List.TakeWhile
import Mathlib.Data.Nat.Digits.Defs

namespace Numeral

def digitChar (d : ℕ) : UInt8 := .ofNat (if d < 10 then 48 + d else 87 + d)

def digitValue (c : UInt8) : ℕ :=
  if 48 ≤ c ∧ c ≤ 57 then c.toNat - 48
  else if 97 ≤ c ∧ c ≤ 122 then c.toNat - 87
  else if 65 ≤ c ∧ c ≤ 90 then c.toNat - 55
  else 36

def isSpace (c : UInt8) : Bool := c == 32 || (9 ≤ c && c ≤ 13)

def numeral (base n : ℕ) : List UInt8 :=
  (if n = 0 then [0] else (base.digits n).reverse).map digitChar

def sign : List UInt8 → Bool × List UInt8
  | 45 :: s => (true, s)
  | 43 :: s => (false, s)
  | s => (false, s)

def skipBase (base : ℕ) : List UInt8 → List UInt8
  | 48 :: x :: d :: s =>
    if base = 16 ∧ (x = 120 ∨ x = 88) ∧ digitValue d < 16 then d :: s else 48 :: x :: d :: s
  | s => s

def ofDigits (base : ℕ) (ds : List ℕ) : ℕ := ds.foldl (fun n d => n * base + d) 0

def stoi (base : ℕ) (s : List UInt8) : Option Int32 :=
  let (neg, s) := sign (s.dropWhile isSpace)
  let ds := ((skipBase base s).map digitValue).takeWhile (· < base)
  if ds = [] then
    none
  else
    let n : ℤ := if neg then -(ofDigits base ds : ℤ) else ofDigits base ds
    if -2 ^ 31 ≤ n ∧ n < 2 ^ 31 then some (.ofInt n) else none

theorem digitChar_spec {d : ℕ} (hd : d < 16)
    : digitValue (digitChar d) = d ∧ isSpace (digitChar d) = false ∧ digitChar d ≠ 45 ∧
        digitChar d ≠ 43 ∧ digitChar d ≠ 120 ∧ digitChar d ≠ 88 ∧ digitChar d < 128 := by
  have hall : ∀ d < 16, digitValue (digitChar d) = d ∧ isSpace (digitChar d) = false ∧
      digitChar d ≠ 45 ∧ digitChar d ≠ 43 ∧ digitChar d ≠ 120 ∧ digitChar d ≠ 88 ∧
      digitChar d < 128 := by
    decide
  exact hall d hd

theorem sign_dropWhile_map_digitChar {ds : List ℕ} (hds : ∀ d ∈ ds, d < 16)
    : sign ((ds.map digitChar).dropWhile isSpace) = (false, ds.map digitChar) := by
  cases ds with
  | nil => rfl
  | cons d ds =>
    rcases digitChar_spec (hds d List.mem_cons_self) with ⟨_, hspace, hminus, hplus, _⟩
    rw [List.map_cons, List.dropWhile_cons_of_neg (by rw [hspace]; simp)]
    unfold sign
    split
    next heq => exact absurd (List.cons.inj heq).1 hminus
    next heq => exact absurd (List.cons.inj heq).1 hplus
    next => rfl

theorem skipBase_map_digitChar (base : ℕ) {ds : List ℕ} (hds : ∀ d ∈ ds, d < 16)
    : skipBase base (ds.map digitChar) = ds.map digitChar := by
  unfold skipBase
  split
  next x d s heq =>
    rw [heq, if_neg]
    intro ⟨_, hx, _⟩
    have hmem : x ∈ ds.map digitChar := by
      rw [heq]
      simp
    rcases List.mem_map.mp hmem with ⟨e, he, rfl⟩
    rcases digitChar_spec (hds e he) with ⟨_, _, _, _, hlower, hupper, _⟩
    rcases hx with hx | hx
    . exact hlower hx
    . exact hupper hx
  next => rfl

theorem stoi_map_digitChar {base : ℕ} (hbase : base ≤ 16) {ds : List ℕ} (hne : ds ≠ [])
    (hds : ∀ d ∈ ds, d < base) (hfits : ofDigits base ds < 2 ^ 31)
    : stoi base (ds.map digitChar) = some (.ofNat (ofDigits base ds)) := by
  have hds' : ∀ d ∈ ds, d < 16 := by
    intro d hd
    have := hds d hd
    omega
  have hvalues : ((ds.map digitChar).map digitValue).takeWhile (· < base) = ds := by
    rw [List.map_map, List.map_congr_left (g := id), List.map_id]
    . rw [List.takeWhile_eq_self_iff]
      simpa using hds
    . intro d hd
      exact (digitChar_spec (hds' d hd)).1
  unfold stoi
  rw [sign_dropWhile_map_digitChar hds']
  dsimp only
  rw [skipBase_map_digitChar base hds', hvalues, if_neg hne, if_pos (by simp; omega)]
  simp [Int32.ofInt_eq_ofNat]

theorem ofDigits_reverse (base : ℕ) (l : List ℕ)
    : ofDigits base l.reverse = Nat.ofDigits base l := by
  unfold ofDigits
  rw [List.foldl_reverse, Nat.ofDigits_eq_foldr]
  congr
  funext d n
  simp [Nat.mul_comm, Nat.add_comm]

theorem stoi_numeral {base n : ℕ} (hbase : 1 < base) (hbase' : base ≤ 16) (hn : n < 2 ^ 31)
    : stoi base (numeral base n) = some (.ofNat n) := by
  unfold numeral
  by_cases hzero : n = 0
  . rw [if_pos hzero, stoi_map_digitChar hbase' (by simp)]
    . simp [ofDigits, hzero]
    . simp
      omega
    . simp [ofDigits]
  . rw [if_neg hzero]
    have hvalue : ofDigits base (base.digits n).reverse = n := by
      rw [ofDigits_reverse, Nat.ofDigits_digits]
    rw [stoi_map_digitChar hbase', hvalue]
    . simpa using Nat.digits_ne_nil_iff_ne_zero.mpr hzero
    . intro d hd
      exact Nat.digits_lt_base hbase (List.mem_reverse.mp hd)
    . rw [hvalue]
      exact hn

theorem ascii_numeral {base n : ℕ} (hbase : 1 < base) (hbase' : base ≤ 16)
    : ∀ c ∈ numeral base n, c < 128 := by
  intro c hc
  rcases List.mem_map.mp hc with ⟨d, hd, rfl⟩
  have hlt : d < base := by
    split at hd
    next =>
      have := List.mem_singleton.mp hd
      omega
    next => exact Nat.digits_lt_base hbase (List.mem_reverse.mp hd)
  exact (digitChar_spec (by omega)).2.2.2.2.2.2

def hexByte (b : UInt8) : List UInt8 := [b.toNat / 16, b.toNat % 16].map digitChar

theorem stoi_hexByte (b : UInt8) : stoi 16 (hexByte b) = some (.ofNat b.toNat) := by
  have hlt := b.toNat_lt
  have hvalue : ofDigits 16 [b.toNat / 16, b.toNat % 16] = b.toNat := by
    simp only [ofDigits, List.foldl_cons, List.foldl_nil]
    omega
  unfold hexByte
  rw [stoi_map_digitChar (by omega) (by simp), hvalue]
  . simp
    omega
  . rw [hvalue]
    omega

theorem ascii_hexByte (b : UInt8) : ∀ c ∈ hexByte b, c < 128 := by
  intro c hc
  have hlt := b.toNat_lt
  rcases List.mem_map.mp hc with ⟨d, hd, rfl⟩
  have hd : d = b.toNat / 16 ∨ d = b.toNat % 16 := by simpa using hd
  exact (digitChar_spec (by omega)).2.2.2.2.2.2

end Numeral
