import Bpftime.Data.SignExtend
import Bpftime.Ptx.Memcapture.Impl
import Mathlib.Data.List.GetD
import Mathlib.Tactic.IntervalCases

namespace Bpftime.Ptx.Memcapture

-- The word that a chunk stores.

section Word

variable {signedChar : Bool} {c : UInt8} {line : List UInt8} {i k n : ℕ}

def fill (signedChar : Bool) (c : UInt8) : UInt8 := if signedChar ∧ 0x80 ≤ c then 0xff else 0

theorem toNat_charToUInt64 : (charToUInt64 signedChar c).toNat
        =
      c.toNat + if signedChar ∧ 0x80 ≤ c then 2 ^ 64 - 256 else 0 := by
  have hlt := c.toNat_lt
  cases signedChar with
  | false =>
    rw [if_neg (by simp)]
    exact UInt8.toNat_toUInt64 c
  | true =>
    change (c.toBitVec.signExtend 64).toNat = _
    rw [BitVec.toNat_signExtend, BitVec.msb_eq_decide, BitVec.toNat_setWidth,
      Nat.mod_eq_of_lt (by change c.toNat < _; omega)]
    simp only [decide_eq_true_eq, true_and, UInt8.le_iff_toNat_le]
    rfl

theorem byte_charToUInt64 (hk : k < 8) : LittleEndian.byte (charToUInt64 signedChar c).toNat k
        =
      if k = 0 then c else fill signedChar c := by
  have hlt := c.toNat_lt
  apply UInt8.toNat_inj.mp
  unfold LittleEndian.byte
  rw [UInt8.toNat_ofNat', toNat_charToUInt64]
  rcases Nat.eq_zero_or_pos k with rfl | hpos
  . change _ = c.toNat
    rw [Nat.pow_zero, Nat.div_one]
    split
    all_goals omega
  . have hfill : (if k = 0 then c else fill signedChar c) = fill signedChar c := if_neg (by omega)
    rw [hfill]
    unfold fill
    split
    . change _ = 255
      interval_cases k
      all_goals omega
    . have hpow : 256 ^ 1 ≤ 256 ^ k := Nat.pow_le_pow_right (by decide) hpos
      rw [Nat.add_zero, Nat.div_eq_of_lt (by omega)]
      rfl

theorem byte_shifted {v : UInt64} {j : ℕ} (hj : j < 8) (hk : k < 8)
    : LittleEndian.byte (v <<< UInt64.ofNat (j * 8)).toNat k
        =
      if k < j then 0 else LittleEndian.byte v.toNat (k - j) := by
  have hamount : (UInt64.ofNat (j * 8)).toNat % 64 = 8 * j := by
    rw [UInt64.toNat_ofNat_of_lt' (by change _ < 2 ^ 64; omega)]
    omega
  have hpow : 2 ^ (8 * j) = 256 ^ j := Nat.pow_mul 2 8 j
  rw [UInt64.toNat_shiftLeft, hamount, Nat.shiftLeft_eq, hpow]
  change LittleEndian.byte (_ % 256 ^ 8) k = _
  rw [LittleEndian.byte_mod hk, LittleEndian.byte_mul_pow]

def packed (signedChar : Bool) (text : ℕ → UInt8) (n : ℕ) : UInt64 :=
  (List.range n).foldl
    (fun curr j => curr ||| (charToUInt64 signedChar (text j) <<< .ofNat (j * 8))) 0

def Spilled (signedChar : Bool) (text : ℕ → UInt8) (n k : ℕ) : Prop :=
  signedChar = true ∧ ∃ j < n, j < k ∧ 0x80 ≤ text j

theorem spilled_succ {text : ℕ → UInt8} : Spilled signedChar text (n + 1) k
        ↔
      Spilled signedChar text n k ∨ (n < k ∧ signedChar = true ∧ 0x80 ≤ text n) := by
  constructor
  . intro ⟨hsigned, j, hj, hjk, hhigh⟩
    rcases Nat.lt_succ_iff_lt_or_eq.mp hj with hlt | rfl
    . exact .inl ⟨hsigned, j, hlt, hjk, hhigh⟩
    . exact .inr ⟨hjk, hsigned, hhigh⟩
  . rintro (⟨hsigned, j, hj, hjk, hhigh⟩ | ⟨hnk, hsigned, hhigh⟩)
    . exact ⟨hsigned, j, by omega, hjk, hhigh⟩
    . exact ⟨hsigned, n, by omega, hnk, hhigh⟩

open Classical in
theorem byte_packed (signedChar : Bool) (text : ℕ → UInt8) (hn : n ≤ 8) (hk : k < 8)
    : LittleEndian.byte (packed signedChar text n).toNat k
        =
      if Spilled signedChar text n k then 0xff else if k < n then text k else 0 := by
  induction n with
  | zero =>
    have hnot : ¬ Spilled signedChar text 0 k := fun ⟨_, j, hj, _⟩ => Nat.not_lt_zero j hj
    rw [if_neg hnot, if_neg (Nat.not_lt_zero k)]
    change LittleEndian.byte 0 k = 0
    unfold LittleEndian.byte
    rw [Nat.zero_div]
    rfl
  | succ n ih =>
    have hround : packed signedChar text (n + 1)
        = packed signedChar text n ||| (charToUInt64 signedChar (text n) <<< .ofNat (n * 8)) := by
      unfold packed
      rw [List.range_succ, List.foldl_append]
      rfl
    rw [hround, UInt64.toNat_or, LittleEndian.byte_or, byte_shifted (by omega) hk, ih (by omega),
      byte_charToUInt64 (by omega)]
    by_cases hspilled : Spilled signedChar text n k
    . rw [if_pos hspilled, if_pos (spilled_succ.mpr (.inl hspilled))]
      exact UInt8.neg_one_or
    have hnot (hle : k ≤ n) : ¬ Spilled signedChar text (n + 1) k := by
      intro h
      rcases spilled_succ.mp h with h | h
      . exact hspilled h
      . omega
    rw [if_neg hspilled]
    rcases Nat.lt_trichotomy k n with hlt | rfl | hgt
    . rw [if_pos hlt, if_pos hlt, if_neg (hnot (by omega)), if_pos (by omega), UInt8.or_zero]
    . rw [if_neg (Nat.lt_irrefl k), if_neg (Nat.lt_irrefl k), if_neg (hnot (by omega)),
        if_pos (by omega), if_pos (by omega), UInt8.zero_or]
    . rw [if_neg (by omega), if_neg (by omega), if_neg (by omega), UInt8.zero_or, spilled_succ,
        or_iff_right hspilled, if_neg (c := k < n + 1) (by omega)]
      unfold fill
      simp only [hgt, true_and]

theorem lddw_halves (v : UInt64) : (v.toUInt32.toInt32.toUInt32.toUInt64
        ||| ((v >>> 32).toUInt32.toInt32.toUInt32.toUInt64 <<< 32))
        =
      v := by
  have hlt := v.toNat_lt
  have hlow : v.toUInt32.toUInt64.toNat = v.toNat % 2 ^ 32 := by
    rw [UInt32.toNat_toUInt64, UInt64.toNat_toUInt32]
  have hhigh : ((v >>> 32).toUInt32.toUInt64 <<< 32).toNat = 2 ^ 32 * (v.toNat / 2 ^ 32) := by
    rw [UInt64.toNat_shiftLeft, UInt32.toNat_toUInt64, UInt64.toNat_toUInt32,
      UInt64.toNat_shiftRight]
    change (v.toNat >>> 32 % 2 ^ 32) <<< 32 % 2 ^ 64 = _
    rw [Nat.shiftLeft_eq, Nat.shiftRight_eq_div_pow]
    omega
  rw [UInt32.toUInt32_toInt32, UInt32.toUInt32_toInt32]
  apply UInt64.toNat_inj.mp
  rw [UInt64.toNat_or, hlow, hhigh, Nat.or_comm,
    ← Nat.two_pow_add_eq_or_of_lt (Nat.mod_lt _ (by decide))]
  exact Nat.div_add_mod _ _

end Word

-- The memory that the prologue leaves.

section Run

variable {signedChar : Bool} {line : List UInt8} {i : ℕ} {s : Machine}

def adjusted (line : List UInt8) (fp : UInt64) : UInt64 :=
  fp - (totalLength line).toInt64.toUInt64

def chunkAddress (base : UInt64) (i : ℕ) : UInt64 := base + (Int16.ofNat i).toInt64.toUInt64

def storeChunk (signedChar : Bool) (line : List UInt8) (base : UInt64) (m : WordMem.Mem) (i : ℕ)
    : WordMem.Mem :=
  WordMem.put m (chunkAddress base i) (LittleEndian.byte (curr signedChar line i).toNat) 8

def afterHeader (fp : UInt64) (m : WordMem.Mem) : WordMem.Mem :=
  WordMem.put m (fp - 8) (fun _ => 0) 8

def afterPrep (signedChar : Bool) (line : List UInt8) (fp : UInt64) (m : WordMem.Mem)
    : WordMem.Mem :=
  (indices line).foldl (storeChunk signedChar line (adjusted line fp)) (afterHeader fp m)

theorem exec_step {inst : EbpfInst} {s' : Machine} (rest : List EbpfInst)
    (hopcode : inst.opcode ≠ EBPF_OP_LDDW) (hstep : step inst s = some s')
    : exec (inst :: rest) s = exec rest s' := by
  cases rest with
  | nil => exact hstep
  | cons next rest =>
    rw [exec, if_neg hopcode, hstep]
    rfl

theorem exec_lddw {lo hi : EbpfInst} (rest : List EbpfInst) (hopcode : lo.opcode = EBPF_OP_LDDW)
    : exec (lo :: hi :: rest) s
        =
      exec rest (s.set lo.dst (lo.imm.toUInt32.toUInt64 ||| (hi.imm.toUInt32.toUInt64 <<< 32)))
    := by
  rw [exec, if_pos hopcode]

theorem exec_chunk (rest : List EbpfInst) : exec (chunk signedChar line i ++ rest) s
        =
      exec rest
        { regs := Function.update s.regs 2 (curr signedChar line i)
          mem := storeChunk signedChar line (s.regs 1) s.mem i } := by
  have hstxdw : EBPF_OP_STXDW ≠ EBPF_OP_LDDW := by decide
  unfold chunk
  change exec (_ :: _ :: _ :: rest) s = _
  rw [exec_lddw _ rfl, lddw_halves, exec_step _ hstxdw rfl]
  rfl

theorem exec_chunks (is : List ℕ) (s : Machine)
    : ∃ s', exec (is.flatMap (chunk signedChar line)) s = some s'
        ∧ s'.regs 1 = s.regs 1 ∧ s'.regs 10 = s.regs 10
        ∧ s'.mem = is.foldl (storeChunk signedChar line (s.regs 1)) s.mem := by
  induction is generalizing s with
  | nil => exact ⟨s, rfl, rfl, rfl, rfl⟩
  | cons i is ih =>
    rw [List.flatMap_cons, exec_chunk]
    exact ih _

theorem store_header (fp : UInt64) (m : WordMem.Mem)
    : WordMem.put m (fp + (-8 : Int16).toInt64.toUInt64)
          (LittleEndian.byte (0 : Int32).toInt64.toUInt64.toNat) 8
        =
      afterHeader fp m := by
  have hneg : (-8 : Int16).toInt64.toUInt64 = -8 := by decide
  rw [hneg, ← UInt64.sub_eq_add_neg]
  apply WordMem.put_congr
  intro i _
  change UInt8.ofNat (0 / _) = 0
  rw [Nat.zero_div]
  rfl

theorem exec_prep (signedChar : Bool) (line : List UInt8) (s : Machine)
    : ∃ s', exec (prep signedChar line) s = some s'
        ∧ s'.regs 1 = adjusted line (s.regs 10) ∧ s'.regs 10 = adjusted line (s.regs 10)
        ∧ s'.mem = afterPrep signedChar line (s.regs 10) s.mem := by
  have hheader : exec (prep signedChar line) s
      = exec ((indices line).flatMap (chunk signedChar line))
          { regs := Function.update (Function.update s.regs 10 (adjusted line (s.regs 10))) 1
              (adjusted line (s.regs 10))
            mem := afterHeader (s.regs 10) s.mem } := by
    have hstdw : EBPF_OP_STDW ≠ EBPF_OP_LDDW := by decide
    have hsub : EBPF_OP_SUB64_IMM ≠ EBPF_OP_LDDW := by decide
    have hmov : EBPF_OP_MOV64_REG ≠ EBPF_OP_LDDW := by decide
    unfold prep header
    change exec (_ :: _ :: _ :: _) s = _
    rw [exec_step _ hstdw rfl, exec_step _ hsub rfl, exec_step _ hmov rfl, ← store_header]
    unfold Machine.set
    dsimp only
    rw [Function.update_self]
    rfl
  rw [hheader]
  exact exec_chunks _ _

theorem tdiv_mul_eight (a : ℤ)
    : (0 ≤ a → a.tdiv 8 * 8 = a / 8 * 8) ∧ (a < 0 → a ≤ a.tdiv 8 * 8 ∧ a.tdiv 8 * 8 ≤ a + 7) := by
  constructor
  . intro h
    rw [Int.tdiv_eq_ediv_of_nonneg h]
  . intro h
    have hneg : a.tdiv 8 = - (-a / 8) := by
      rw [← Int.tdiv_eq_ediv_of_nonneg (by omega), Int.neg_tdiv, Int.neg_neg]
    omega

theorem toInt_totalLength (line : List UInt8)
    : (totalLength line).toInt = (((size line).toInt + 8).bmod (2 ^ 32)).tdiv 8 * 8 := by
  have hsum : (size line + 1 + 7).toInt = ((size line).toInt + 8).bmod (2 ^ 32) := by
    rw [Int32.toInt_add, Int32.toInt_add, Int.bmod_add_bmod, Int.add_assoc]
    rfl
  have hlow := (size line + 1 + 7).le_toInt
  have hhigh := (size line + 1 + 7).toInt_lt
  have hround := tdiv_mul_eight (size line + 1 + 7).toInt
  unfold totalLength
  rw [Int32.toInt_mul, Int32.toInt_div, ← hsum]
  change ((Int.tdiv _ 8).bmod _ * 8).bmod _ = _
  rw [Int.bmod_mul_bmod, Int.bmod_eq_of_le]
  all_goals omega

theorem toInt_totalLength_of_lt (h : (size line).toInt + 8 < 2 ^ 31)
    : (totalLength line).toInt = ((size line).toInt + 8).tdiv 8 * 8 := by
  have hlow := (size line).le_toInt
  rw [toInt_totalLength, Int.bmod_eq_of_le]
  all_goals omega

theorem mem_indices : i ∈ indices line ↔ i % 8 = 0 ∧ i < (size line).toInt.toNat := by
  unfold indices
  rw [List.mem_map]
  constructor
  . rintro ⟨k, hk, rfl⟩
    have := List.mem_range.mp hk
    omega
  . rintro ⟨hmod, hlt⟩
    exact ⟨i / 8, List.mem_range.mpr (by omega), by omega⟩

theorem chunkAddress_of_lt (base : UInt64) (h : i < 32768)
    : chunkAddress base i = WordMem.shift base i := by
  have hcast := SignExtend.cast_toNat (Int16.ofNat i).toInt64
  rw [Int16.toInt_toInt64, Int16.toInt_ofNat_of_lt h] at hcast
  unfold chunkAddress WordMem.shift
  congr 1
  apply UInt64.toNat_inj.mp
  rw [UInt64.toNat_ofNat_of_lt' (by change _ < 2 ^ 64; omega)]
  omega

section foldl

variable {base x : UInt64} {is : List ℕ} {m m' : WordMem.Mem}

theorem foldl_storeChunk_of_not_mem (h : ∀ i ∈ is, ¬ (x - chunkAddress base i).toNat < 8)
    : is.foldl (storeChunk signedChar line base) m x = m x := by
  induction is generalizing m with
  | nil => rfl
  | cons i is ih =>
    rw [List.foldl_cons, ih fun j hj => h j (List.mem_cons_of_mem _ hj)]
    exact if_neg (h i List.mem_cons_self)

theorem foldl_storeChunk_congr (h : m x = m' x) : is.foldl (storeChunk signedChar line base) m x
        =
      is.foldl (storeChunk signedChar line base) m' x := by
  induction is generalizing m m' with
  | nil => exact h
  | cons i is ih =>
    rw [List.foldl_cons, List.foldl_cons]
    apply ih
    unfold storeChunk WordMem.put
    rw [h]

theorem foldl_storeChunk_of_mem (hi : i ∈ is) (hx : (x - chunkAddress base i).toNat < 8)
    : is.foldl (storeChunk signedChar line base) m x
        =
      is.foldl (storeChunk signedChar line base) m' x := by
  induction is generalizing m m' with
  | nil => cases hi
  | cons j is ih =>
    rw [List.foldl_cons, List.foldl_cons]
    rcases List.mem_cons.mp hi with rfl | hmem
    . apply foldl_storeChunk_congr
      unfold storeChunk WordMem.put
      rw [if_pos hx, if_pos hx]
    . exact ih hmem

end foldl

end Run

end Bpftime.Ptx.Memcapture
