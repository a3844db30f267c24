import Bpftime.Ptx.Memcapture.Prologue

/-!
This module contains the proof of when the prologue of a captured line leaves its text in the stack
frame. A byte of `0x80` or more is sign extended where `char` is signed, and spoils its word.
-/

namespace Bpftime.Ptx.Memcapture

def Between (lo hi x : UInt64) : Prop := (x - lo).toNat < (hi - lo).toNat

structure Holds (m : WordMem.Mem) (a : UInt64) (text : List UInt8) : Prop where
  bytes : ∀ i < text.length, m (WordMem.shift a i) = text.getD i 0
  zero : m (WordMem.shift a text.length) = 0

structure CapturedFrom (text : List UInt8) (s s' : Machine) : Prop where
  holds : Holds s'.mem (s'.regs 1) text
  frame : ∀ x, ¬ Between (s'.regs 10) (s.regs 10) x → s'.mem x = s.mem x

/-- From every machine state the prologue ends with `r1` at a copy of the line with its zero byte, and
has written to the frame only. -/
def LdStLine.Captured (signedChar : Bool) (l : LdStLine) : Prop :=
  ∀ s, ∃ s', exec (prep signedChar l.text) s = some s' ∧ CapturedFrom l.text s s'

def Storable (signedChar : Bool) (text : List UInt8) : Prop :=
  text.length ≤ 32768
    ∧ (signedChar = true →
        ∀ p ≤ text.length, ∀ q < p, q / 8 = p / 8 → 0x80 ≤ text.getD q 0 → text.getD p 0 = 0xff)

variable {signedChar : Bool}

theorem captured_iff_afterPrep (l : LdStLine) : l.Captured signedChar
        ↔
      ∀ fp m,
        Holds (afterPrep signedChar l.text fp m) (adjusted l.text fp) l.text
          ∧ ∀ x, ¬ Between (adjusted l.text fp) fp x → afterPrep signedChar l.text fp m x = m x
    := by
  constructor
  . intro h fp m
    rcases h ⟨fun _ => fp, m⟩ with ⟨s', hs', hcaptured⟩
    rcases exec_prep signedChar l.text ⟨fun _ => fp, m⟩ with ⟨s'', hs'', hr1, hr10, hmem⟩
    rw [hs''] at hs'
    cases hs'
    have hholds := hcaptured.holds
    have hframe := hcaptured.frame
    rw [hr1, hmem] at hholds
    rw [hr10, hmem] at hframe
    exact ⟨hholds, hframe⟩
  . intro h s
    rcases exec_prep signedChar l.text s with ⟨s', hs', hr1, hr10, hmem⟩
    refine ⟨s', hs', ?_, ?_⟩
    . rw [hr1, hmem]
      exact (h _ _).1
    . rw [hr10, hmem]
      exact (h _ _).2

-- Lines that are too long.

section Long

variable {signedChar : Bool} {l : LdStLine}

theorem fp_sub_adjusted (line : List UInt8) (fp : UInt64)
    : fp - adjusted line fp = (totalLength line).toInt64.toUInt64 := by
  unfold adjusted
  grind

theorem not_captured_of_size_gt (h : 32768 < (size l.text).toInt) : ¬ l.Captured signedChar := by
  rw [captured_iff_afterPrep]
  intro hall
  have hmem : 32768 ∈ indices l.text := mem_indices.mpr ⟨rfl, by omega⟩
  have hat : (chunkAddress (adjusted l.text 0) 32768 - chunkAddress (adjusted l.text 0) 32768).toNat
      < 8 := by
    rw [UInt64.sub_self]
    decide
  have hbelow : (chunkAddress (adjusted l.text 0) 32768 - adjusted l.text 0).toNat
      = 2 ^ 64 - 32768 := by
    unfold chunkAddress
    rw [UInt64.add_comm, UInt64.add_sub_cancel]
    decide
  have houtside : ¬ Between (adjusted l.text 0) 0 (chunkAddress (adjusted l.text 0) 32768) := by
    have hcast := SignExtend.cast_toNat (totalLength l.text).toInt64
    have hlow := (size l.text).le_toInt
    have hhigh := (size l.text).toInt_lt
    have htotal := toInt_totalLength l.text
    have hround := tdiv_mul_eight (((size l.text).toInt + 8).bmod (2 ^ 32))
    have hbmod : ((size l.text).toInt + 8).bmod (2 ^ 32) = (size l.text).toInt + 8
        ∨ ((size l.text).toInt + 8).bmod (2 ^ 32) = (size l.text).toInt + 8 - 2 ^ 32 := by
      unfold Int.bmod
      dsimp only
      split
      all_goals omega
    rw [Int32.toInt_toInt64] at hcast
    unfold Between
    rw [hbelow, fp_sub_adjusted]
    omega
  have hzero := (hall 0 fun _ => 0).2 _ houtside
  have hone := (hall 0 fun _ => 1).2 _ houtside
  have hsame : afterPrep signedChar l.text 0 (fun _ => 0) _
      = afterPrep signedChar l.text 0 (fun _ => 1) _ :=
    foldl_storeChunk_of_mem hmem hat
  rw [hzero, hone] at hsame
  revert hsame
  decide

theorem not_captured_of_size_le (h : (size l.text).toInt ≤ 32768) (hlong : 2 ^ 31 ≤ l.text.length)
    : ¬ l.Captured signedChar := by
  rw [captured_iff_afterPrep]
  intro hall
  have hchunks : ∀ i ∈ indices l.text,
      ¬ (WordMem.shift (adjusted l.text 0) 40000 - chunkAddress (adjusted l.text 0) i).toNat < 8
    := by
    intro i hi
    have := mem_indices.mp hi
    obtain ⟨d, hd⟩ : ∃ d, 40000 = i + d := ⟨40000 - i, by omega⟩
    rw [chunkAddress_of_lt _ (by omega), hd, ← WordMem.shift_add,
      WordMem.toNat_shift_sub (by omega)]
    omega
  have hheader : ¬ (WordMem.shift (adjusted l.text 0) 40000 - (0 - 8)).toNat < 8 := by
    have hcast := SignExtend.cast_toNat (totalLength l.text).toInt64
    have hlow := (totalLength l.text).le_toInt
    have hround := tdiv_mul_eight ((size l.text).toInt + 8)
    have htotal : (totalLength l.text).toInt = _ := toInt_totalLength_of_lt (by omega)
    have hsub : WordMem.shift (adjusted l.text 0) 40000 - (0 - 8)
        = 40008 - (totalLength l.text).toInt64.toUInt64 := by
      unfold WordMem.shift adjusted
      grind
    rw [Int32.toInt_toInt64] at hcast
    rw [hsub, UInt64.toNat_sub]
    change ¬ (_ + 40008) % _ < 8
    omega
  have hkept (b : UInt8)
      : afterPrep signedChar l.text 0 (fun _ => b) (WordMem.shift (adjusted l.text 0) 40000) = b
    := by
    unfold afterPrep
    rw [foldl_storeChunk_of_not_mem hchunks]
    unfold afterHeader WordMem.put
    rw [if_neg hheader]
  have hbyte := (hall 0 fun _ => l.text.getD 40000 0 + 1).1.bytes 40000 (by omega)
  rw [hkept] at hbyte
  grind

theorem not_captured_of_length_gt (h : 32768 < l.text.length) : ¬ l.Captured signedChar := by
  by_cases hsize : 32768 < (size l.text).toInt
  . exact not_captured_of_size_gt hsize
  . apply not_captured_of_size_le (by omega)
    by_contra hlt
    have : (size l.text).toInt = l.text.length := Int32.toInt_ofNat_of_lt (by omega)
    omega

end Long

-- Lines with offsets that fit.

section Short

variable {signedChar : Bool} {line : List UInt8} {p c : ℕ} {fp : UInt64} {m : WordMem.Mem}

theorem toInt_size (h : line.length ≤ 32768) : (size line).toInt = line.length :=
  Int32.toInt_ofNat_of_lt (by omega)

theorem toNat_totalLength (h : line.length ≤ 32768)
    : (totalLength line).toInt64.toUInt64.toNat = (line.length + 8) / 8 * 8 := by
  have hcast := SignExtend.cast_toNat (totalLength line).toInt64
  have hsize := toInt_size h
  have htotal : (totalLength line).toInt = _ := toInt_totalLength_of_lt (by omega)
  have hround := tdiv_mul_eight ((size line).toInt + 8)
  rw [Int32.toInt_toInt64] at hcast
  omega

def wordByte (signedChar : Bool) (line : List UInt8) (p : ℕ) : UInt8 :=
  LittleEndian.byte (curr signedChar line (p / 8 * 8)).toNat (p % 8)

theorem moved_chunks (base : UInt64) (hc : 8 * c ≤ 32768) : WordMem.Moved m
        (((List.range c).map (8 * ·)).foldl (storeChunk signedChar line base) m) base
        (wordByte signedChar line) 0 (8 * c) := by
  induction c with
  | zero => exact WordMem.moved_empty _ _ _ _
  | succ c ih =>
    rw [List.range_succ, List.map_append, List.foldl_append]
    change WordMem.Moved m (storeChunk signedChar line base _ (8 * c)) _ _ _ _
    unfold storeChunk
    have hword : ∀ j < 8, LittleEndian.byte (curr signedChar line (8 * c)).toNat j
        = wordByte signedChar line (8 * c + j) := by
      intro j hj
      have hdiv : (8 * c + j) / 8 * 8 = 8 * c := by omega
      have hmod : (8 * c + j) % 8 = j := by omega
      unfold wordByte
      rw [hdiv, hmod]
    rw [chunkAddress_of_lt base (by omega), WordMem.put_congr hword]
    apply (ih (by omega)).join (by omega)
    intro i
    omega

theorem afterPrep_eq_put (h : line.length ≤ 32768) : afterPrep signedChar line fp m
        =
      WordMem.put (afterHeader fp m) (adjusted line fp) (wordByte signedChar line)
        (8 * ((line.length + 7) / 8)) := by
  unfold afterPrep indices
  rw [toInt_size h, Int.toNat_natCast]
  exact (moved_chunks _ (by omega)).eq_put (by omega)

def Overwritten (signedChar : Bool) (line : List UInt8) (p : ℕ) : Prop :=
  signedChar = true ∧ ∃ q < p, q / 8 = p / 8 ∧ 0x80 ≤ line.getD q 0

theorem spilled_iff_overwritten (hp : p ≤ line.length)
    : Spilled signedChar (fun j => line.getD (p / 8 * 8 + j) 0)
          (min 8 (line.length - p / 8 * 8)) (p % 8)
        ↔
      Overwritten signedChar line p := by
  constructor
  . intro ⟨hsigned, j, _, hjp, hhigh⟩
    exact ⟨hsigned, p / 8 * 8 + j, by omega, by omega, hhigh⟩
  . intro ⟨hsigned, q, hq, hword, hhigh⟩
    refine ⟨hsigned, q - p / 8 * 8, by omega, by omega, ?_⟩
    have heq : p / 8 * 8 + (q - p / 8 * 8) = q := by omega
    dsimp only
    rw [heq]
    exact hhigh

open Classical in
theorem wordByte_eq (h : line.length ≤ 32768) (hp : p ≤ line.length) : wordByte signedChar line p
        =
      if Overwritten signedChar line p then 0xff else line.getD p 0 := by
  have hcurr : curr signedChar line (p / 8 * 8)
      = packed signedChar (fun j => line.getD (p / 8 * 8 + j) 0)
          (min 8 (line.length - p / 8 * 8)) := by
    unfold curr packed
    rw [toInt_size h, Int.toNat_natCast]
  have htext : (if p % 8 < min 8 (line.length - p / 8 * 8) then
      line.getD (p / 8 * 8 + p % 8) 0 else 0) = line.getD p 0 := by
    rcases Nat.lt_or_eq_of_le hp with hlt | heq
    . rw [if_pos (by omega), Nat.div_add_mod']
    . rw [if_neg (by omega), List.getD_eq_default _ _ (by omega)]
  unfold wordByte
  rw [hcurr, byte_packed _ _ (by omega) (by omega), spilled_iff_overwritten hp, htext]

open Classical in
theorem afterPrep_shift (h : line.length ≤ 32768) (hp : p ≤ line.length)
    : afterPrep signedChar line fp m (WordMem.shift (adjusted line fp) p)
        =
      if Overwritten signedChar line p then 0xff else line.getD p 0 := by
  rw [afterPrep_eq_put h]
  by_cases hlt : p < 8 * ((line.length + 7) / 8)
  . rw [WordMem.put_shift hlt (by omega), wordByte_eq h hp]
  . -- The line fills its last word: the zero byte is the one of the header.
    have hnot : ¬ Overwritten signedChar line p := by
      intro ⟨_, q, hq, hword, _⟩
      omega
    have htotal := toNat_totalLength h
    have htop : WordMem.shift (adjusted line fp) p = WordMem.shift (fp - 8) 0 := by
      have hlength : (totalLength line).toInt64.toUInt64 = .ofNat p + 8 := by
        apply UInt64.toNat_inj.mp
        rw [htotal, UInt64.toNat_add, UInt64.toNat_ofNat_of_lt' (by change _ < 2 ^ 64; omega)]
        change _ = (p + 8) % 2 ^ 64
        omega
      unfold WordMem.shift adjusted
      rw [hlength]
      grind
    rw [if_neg hnot, List.getD_eq_default _ _ (by omega), WordMem.put_of_ne, htop]
    . exact WordMem.put_shift (by decide) (by decide)
    . intro i hi heq
      have := WordMem.shift_inj (by omega) (by omega) heq
      omega

theorem afterPrep_of_not_between (h : line.length ≤ 32768) {x : UInt64}
    (hx : ¬ Between (adjusted line fp) fp x)
    : afterPrep signedChar line fp m x = m x := by
  have htotal := toNat_totalLength h
  have hx' : ¬ (x - adjusted line fp).toNat < (line.length + 8) / 8 * 8 := by
    unfold Between at hx
    rw [fp_sub_adjusted, htotal] at hx
    exact hx
  have hheader : ¬ (x - (fp - 8)).toNat < 8 := by
    intro hlt
    have hsub : x - adjusted line fp
        = (x - (fp - 8)) + ((totalLength line).toInt64.toUInt64 - 8) := by
      unfold adjusted
      grind
    have hge : (8 : UInt64) ≤ (totalLength line).toInt64.toUInt64 := by
      rw [UInt64.le_iff_toNat_le, htotal]
      change 8 ≤ _
      omega
    rw [hsub, UInt64.toNat_add, UInt64.toNat_sub_of_le _ _ hge, htotal] at hx'
    change ¬ (_ + (_ - 8)) % _ < _ at hx'
    omega
  rw [afterPrep_eq_put h]
  unfold WordMem.put
  rw [if_neg (by omega)]
  exact if_neg hheader

end Short

theorem LdStLine.Captured.storable {signedChar : Bool} {l : LdStLine} (h : l.Captured signedChar)
    : Storable signedChar l.text := by
  classical
  have hle : l.text.length ≤ 32768 := by
    by_contra hgt
    exact not_captured_of_length_gt (by omega) h
  refine ⟨hle, ?_⟩
  intro hsigned p hp q hq hword hhigh
  have hover : Overwritten signedChar l.text p := ⟨hsigned, q, hq, hword, hhigh⟩
  have hholds := ((captured_iff_afterPrep l).mp h 0 (fun _ => 0)).1
  have hbyte
      : afterPrep signedChar l.text 0 (fun _ => 0) (WordMem.shift (adjusted l.text 0) p) = _ :=
    afterPrep_shift hle hp
  rw [if_pos hover] at hbyte
  rcases Nat.lt_or_eq_of_le hp with hlt | rfl
  . rw [← hbyte]
    exact (hholds.bytes p hlt).symm
  . rw [hholds.zero] at hbyte
    cases hbyte

theorem LdStLine.captured_iff (signedChar : Bool) (l : LdStLine)
    : l.Captured signedChar ↔ Storable signedChar l.text := by
  classical
  constructor
  . exact LdStLine.Captured.storable
  . intro ⟨hle, hstorable⟩
    rw [captured_iff_afterPrep]
    intro fp m
    have hbyte : ∀ p ≤ l.text.length,
        afterPrep signedChar l.text fp m (WordMem.shift (adjusted l.text fp) p)
          = l.text.getD p 0 := by
      intro p hp
      rw [afterPrep_shift hle hp]
      split
      next hover =>
        rcases hover with ⟨hsigned, q, hq, hword, hhigh⟩
        exact (hstorable hsigned p hp q hq hword hhigh).symm
      next => rfl
    refine ⟨⟨?_, ?_⟩, fun x hx => afterPrep_of_not_between hle hx⟩
    . intro i hi
      exact hbyte i (by omega)
    . rw [hbyte _ (Nat.le_refl _)]
      exact List.getD_eq_default _ _ (Nat.le_refl _)

theorem LdStLine.not_captured_microSign : ∃ l : LdStLine,
        l.text = ascii "ld.global.u32 %r1, [%rd1] /*" ++ [0xc2, 0xb5] ++ ascii "*/;"
          ∧ (exec (prep true l.text) ⟨fun _ => 4096, fun _ => 0⟩).map
              (fun s => s.mem (WordMem.shift (s.regs 1) 30)) = some 0xff
          ∧ l.text.getD 30 0 = 0x2a
          ∧ ¬ l.Captured true := by
  refine ⟨⟨ascii "ld.global.u32 %r1, [%rd1] /*" ++ [0xc2, 0xb5] ++ ascii "*/;", by decide⟩, rfl,
    by decide, by decide, ?_⟩
  intro h
  have hstar := h.storable.2 rfl 30 (by decide) 28 (by decide) rfl (by decide)
  revert hstar
  decide

end Bpftime.Ptx.Memcapture
