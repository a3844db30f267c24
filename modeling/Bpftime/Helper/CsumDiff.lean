import Mathlib.Data.Int.ModEq

namespace Bpftime.Helper

def EINVAL : Int32 := 22

def word (buf : List UInt8) (i : ℕ) : UInt16 :=
  (buf.getD (2 * i) 0).toUInt16 ||| (buf.getD (2 * i + 1) 0).toUInt16 <<< 8

def addWords (csumDiff : Int32) (words : ℕ → UInt16) (n : ℕ) : Int32 :=
  (List.range n).foldl (fun csumDiff i => csumDiff + Int32.ofNat (words i).toNat) csumDiff

def csumDiff (fromBuf : Option (List UInt8)) (fromSize : Int32) (toBuf : Option (List UInt8))
    (toSize seed : Int32) : Int64 :=
  if fromSize % 4 ≠ 0 ∨ toSize % 4 ≠ 0 then
    (-EINVAL).toInt64
  else
    let csumDiff := seed
    let csumDiff :=
      match toBuf with
      | some toBuf => addWords csumDiff (word toBuf) (toSize / 2).toNatClampNeg
      | none => csumDiff
    let csumDiff :=
      match fromBuf with
      | some fromBuf => addWords csumDiff (fun i => ~~~word fromBuf i) (fromSize / 2).toNatClampNeg
      | none => csumDiff
    if csumDiff < 0 then (-EINVAL).toInt64 else csumDiff.toInt64

def wordSum (words : ℕ → UInt16) (n : ℕ) : ℕ := ((List.range n).map fun i => (words i).toNat).sum

theorem wordSum_succ (words : ℕ → UInt16) (n : ℕ)
    : wordSum words (n + 1) = wordSum words n + (words n).toNat := by
  unfold wordSum
  rw [List.range_succ, List.map_append, List.sum_append]
  simp

theorem wordSum_complement (words : ℕ → UInt16) (n : ℕ)
    : wordSum (fun i => ~~~words i) n + wordSum words n = 65535 * n := by
  induction n with
  | zero => rfl
  | succ n ih =>
    have hword := (words n).toNat_lt
    have hnot : (~~~words n).toNat = 65535 - (words n).toNat := UInt16.toNat_not _
    rw [wordSum_succ, wordSum_succ, hnot]
    omega

theorem toInt_addWords {acc : Int32} (words : ℕ → UInt16) (n : ℕ) (hacc : 0 ≤ acc.toInt)
    (hlt : acc.toInt + wordSum words n < 2 ^ 31)
    : (addWords acc words n).toInt = acc.toInt + wordSum words n := by
  induction n with
  | zero => simp [addWords, wordSum]
  | succ n ih =>
    have hsum := wordSum_succ words n
    have hih := ih (by omega)
    have hword := (words n).toNat_lt
    unfold addWords at hih ⊢
    rw [List.range_succ, List.foldl_append]
    simp only [List.foldl_cons, List.foldl_nil]
    rw [Int32.toInt_add, hih, Int32.toInt_ofNat_of_lt (by omega)]
    rw [Int.bmod_eq_of_le (by omega) (by omega)]
    omega

section Checksum

def bufSum (buf : List UInt8) : ℕ := wordSum (word buf) (buf.length / 2)

def exactSum (a b : List UInt8) (seed : Int32) : ℤ :=
  seed.toInt + bufSum b + wordSum (fun i => ~~~word a i) (a.length / 2)

variable {n seed : Int32} {a b c : List UInt8}

theorem toNatClampNeg_half (ha : a.length = n.toInt) : (n / 2).toNatClampNeg = a.length / 2 := by
  have hn := n.toInt_lt
  have hhalf : (n / 2).toInt = n.toInt / 2 := by
    rw [Int32.toInt_div]
    change (n.toInt.tdiv 2).bmod (2 ^ 32) = _
    rw [Int.tdiv_eq_ediv_of_nonneg (by omega), Int.bmod_eq_of_le (by omega) (by omega)]
  rw [← Int32.toNat_toInt, hhalf]
  omega

theorem mod_four_eq_zero (hn : n.toInt % 4 = 0) (ha : a.length = n.toInt) : n % 4 = 0 := by
  rw [← Int32.toInt_inj, Int32.toInt_mod]
  change n.toInt.tmod 4 = 0
  rw [Int.tmod_eq_emod_of_nonneg (by omega)]
  exact hn

theorem toInt_csumDiff (hn : n.toInt % 4 = 0) (ha : a.length = n.toInt) (hb : b.length = n.toInt)
    (hseed : 0 ≤ seed.toInt) (hlt : exactSum a b seed < 2 ^ 31)
    : (csumDiff (some a) n (some b) n seed).toInt = exactSum a b seed := by
  have hmod := mod_four_eq_zero hn ha
  unfold exactSum bufSum at hlt
  have hto := toInt_addWords (word b) (b.length / 2) hseed (by omega)
  have hfrom := toInt_addWords (fun i => ~~~word a i) (a.length / 2)
    (show 0 ≤ (addWords seed (word b) (b.length / 2)).toInt by omega) (by omega)
  have hlen : b.length = a.length := by omega
  unfold csumDiff
  rw [if_neg (by simp [hmod])]
  dsimp only
  rw [toNatClampNeg_half ha]
  rw [hlen] at hto hfrom
  rw [if_neg]
  . rw [Int32.toInt_toInt64, hfrom, hto]
    unfold exactSum bufSum
    rw [hlen]
  . rw [Int32.lt_iff_toInt_lt, hfrom, hto]
    change ¬ _ < (0 : ℤ)
    omega

theorem exactSum_modEq (a b : List UInt8) (seed : Int32)
    : exactSum a b seed ≡ seed.toInt + bufSum b - bufSum a [ZMOD 65535] := by
  have hcompl := wordSum_complement (word a) (a.length / 2)
  unfold exactSum bufSum
  apply Int.modEq_of_dvd
  refine ⟨-(a.length / 2 : ℕ), ?_⟩
  omega

theorem toInt32_csumDiff (hn : n.toInt % 4 = 0) (ha : a.length = n.toInt)
    (hb : b.length = n.toInt) (hseed : 0 ≤ seed.toInt) (hlt : exactSum a b seed < 2 ^ 31)
    : (csumDiff (some a) n (some b) n seed).toInt32.toInt = exactSum a b seed := by
  have hnonneg : 0 ≤ exactSum a b seed := by
    unfold exactSum
    omega
  rw [Int64.toInt_toInt32, toInt_csumDiff hn ha hb hseed hlt]
  rw [Int.bmod_eq_of_le (by omega) (by omega)]

theorem csumDiff_modEq (n seed : Int32) (a b c : List UInt8) (hn : n.toInt % 4 = 0)
    (ha : a.length = n.toInt) (hb : b.length = n.toInt) (hc : c.length = n.toInt)
    (hseed : 0 ≤ seed.toInt) (hab : exactSum a b seed < 2 ^ 31)
    : (csumDiff (some a) n (some b) n seed).toInt
          ≡ seed.toInt + bufSum b - bufSum a [ZMOD 65535]
      ∧ (exactSum a c seed < 2 ^ 31 →
          exactSum b c (csumDiff (some a) n (some b) n seed).toInt32 < 2 ^ 31 →
          (csumDiff (some b) n (some c) n (csumDiff (some a) n (some b) n seed).toInt32).toInt
            ≡ (csumDiff (some a) n (some c) n seed).toInt [ZMOD 65535])
      ∧ (exactSum b a (csumDiff (some a) n (some b) n seed).toInt32 < 2 ^ 31 →
          (csumDiff (some b) n (some a) n (csumDiff (some a) n (some b) n seed).toInt32).toInt
            ≡ seed.toInt [ZMOD 65535]) := by
  have hfirst := toInt32_csumDiff hn ha hb hseed hab
  have hmod := exactSum_modEq a b seed
  have hnonneg : 0 ≤ exactSum a b seed := by
    unfold exactSum
    omega
  -- the second call starts from `seed + bufSum b - bufSum a`, and takes `bufSum b` away again
  have hsecond (d : List UInt8) (hd : d.length = n.toInt)
      (hlt : exactSum b d (csumDiff (some a) n (some b) n seed).toInt32 < 2 ^ 31)
      : (csumDiff (some b) n (some d) n (csumDiff (some a) n (some b) n seed).toInt32).toInt
          ≡ seed.toInt + bufSum d - bufSum a [ZMOD 65535] := by
    rw [toInt_csumDiff hn hb hd (by omega) hlt]
    apply (exactSum_modEq b d _).trans
    rw [hfirst]
    have heq : seed.toInt + bufSum d - bufSum a
        = seed.toInt + bufSum b - bufSum a + bufSum d - bufSum b := by omega
    rw [heq]
    exact (hmod.add_right _).sub_right _
  refine ⟨?_, ?_, ?_⟩
  . rw [toInt_csumDiff hn ha hb hseed hab]
    exact hmod
  . intro hac hbc
    apply (hsecond c hc hbc).trans
    rw [toInt_csumDiff hn ha hc hseed hac]
    exact (exactSum_modEq a c seed).symm
  . intro hba
    apply (hsecond a ha hba).trans
    rw [Int.add_sub_cancel]

theorem csumDiff_modEq_four : (csumDiff (some [1, 2, 3, 4]) 4 (some [0xff, 0xff, 0, 7]) 4 5).toInt
          ≡ (5 : Int32).toInt + bufSum [0xff, 0xff, 0, 7] - bufSum [1, 2, 3, 4] [ZMOD 65535]
      ∧ (csumDiff (some [0xff, 0xff, 0, 7]) 4 (some [1, 2, 3, 4]) 4
          (csumDiff (some [1, 2, 3, 4]) 4 (some [0xff, 0xff, 0, 7]) 4 5).toInt32).toInt
            ≡ (5 : Int32).toInt [ZMOD 65535] := by
  have h := csumDiff_modEq 4 5 [1, 2, 3, 4] [0xff, 0xff, 0, 7] [1, 2, 3, 4] (by decide) (by decide)
    (by decide) (by decide) (by decide) (by decide)
  exact ⟨h.1, h.2.2 (by decide)⟩

end Checksum

end Bpftime.Helper
