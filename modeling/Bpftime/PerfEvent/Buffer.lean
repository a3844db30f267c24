import Bpftime.Data.BitCount
import Bpftime.Data.Run
import Bpftime.PerfEvent.Impl

namespace Bpftime.PerfEvent

namespace SoftwarePerfEventData

inductive Op where
  | ensure (bufferSize : UInt64)
  | output (buf : List UInt8)
  | consume (dataTail : UInt64)

def step (d : SoftwarePerfEventData) : Op → Option SoftwarePerfEventData
  | .ensure bufferSize => some (d.ensureMmapBuffer bufferSize).2
  | .output buf => d.outputData buf
  | .consume dataTail => some { d with header := { d.header with dataTail } }

/-- A refused size leaves the buffer as it was. -/
def FailsUnchanged (d : SoftwarePerfEventData) (bufferSize : UInt64) : Prop :=
  (d.ensureMmapBuffer bufferSize).1 = false →
    (d.ensureMmapBuffer bufferSize).2.data = d.data
      ∧ (d.ensureMmapBuffer bufferSize).2.mmapSize = d.mmapSize
      ∧ (d.ensureMmapBuffer bufferSize).2.header.dataSize = d.header.dataSize

def ZeroOrPowerOfTwo (x : UInt64) : Prop := x = 0 ∨ ∃ k, x.toNat = 2 ^ k

def Grantable (d : SoftwarePerfEventData) (bufferSize : UInt64) : Prop :=
  bufferSize.toNat ≤ d.pagesize + d.data.len ∨ ∃ k, bufferSize.toNat = d.pagesize + 2 ^ k

def StaysPowerOfTwo (d : SoftwarePerfEventData) (op : Op) : Prop :=
  ∀ d', d.step op = some d' → ZeroOrPowerOfTwo d'.mmapSize

def OpGrantable (d : SoftwarePerfEventData) : Op → Prop
  | .ensure bufferSize => d.Grantable bufferSize
  | .output _ => True
  | .consume _ => True

variable {d d' : SoftwarePerfEventData} {bufferSize : UInt64}

theorem popcnt_go_eq (n : Nat) (x : UInt64) : popcnt.go n x = BitCount.count n x.toNat := by
  induction n generalizing x with
  | zero => rfl
  | succ n ih =>
    unfold popcnt.go BitCount.count
    split
    next h => simp [h]
    next =>
      rw [ih, UInt64.toNat_and, UInt64.toNat_shiftRight]
      rw [UInt64.toNat_one, Nat.and_one_is_mod]
      rw [show 1 % 64 = 1 from rfl, Nat.shiftRight_one]

theorem popcnt_eq_one_iff (x : UInt64) : popcnt x = 1 ↔ ∃ k, x.toNat = 2 ^ k := by
  unfold popcnt
  rw [popcnt_go_eq]
  exact BitCount.count_eq_one_iff x.toNat_lt

theorem toNat_dataSize (h : d.pagesize + d.data.len < bufferSize.toNat)
    : (bufferSize - .ofNat d.pagesize).toNat = bufferSize.toNat - d.pagesize := by
  have hlt := bufferSize.toNat_lt
  have hpagesize : (UInt64.ofNat d.pagesize).toNat = d.pagesize := by
    rw [UInt64.toNat_ofNat']
    apply Nat.mod_eq_of_lt
    omega
  rw [UInt64.toNat_sub_of_le, hpagesize]
  rw [UInt64.le_iff_toNat_le, hpagesize]
  omega

theorem ensureMmapBuffer_of_le (h : ¬ d.pagesize + d.data.len < bufferSize.toNat)
    : d.ensureMmapBuffer bufferSize = (true, d) := by
  unfold ensureMmapBuffer
  rw [if_neg h]

theorem ensureMmapBuffer_of_lt (h : d.pagesize + d.data.len < bufferSize.toNat)
    : (d.ensureMmapBuffer bufferSize).1 = decide (popcnt (bufferSize - .ofNat d.pagesize) = 1)
        ∧ (d.ensureMmapBuffer bufferSize).2.data.len = bufferSize.toNat - d.pagesize
        ∧ (d.ensureMmapBuffer bufferSize).2.mmapSize = bufferSize - .ofNat d.pagesize := by
  unfold ensureMmapBuffer
  rw [if_pos h]
  refine ⟨rfl, rfl, ?_⟩
  apply UInt64.toNat_inj.mp
  rw [toNat_dataSize h]
  unfold mmapSize
  rw [UInt64.toNat_ofNat']
  apply Nat.mod_eq_of_lt
  exact Nat.lt_of_le_of_lt (Nat.sub_le _ _) bufferSize.toNat_lt

theorem grantable_of_lt_iff (h : d.pagesize + d.data.len < bufferSize.toNat)
    : d.Grantable bufferSize ↔ popcnt (bufferSize - .ofNat d.pagesize) = 1 := by
  rw [popcnt_eq_one_iff, toNat_dataSize h]
  constructor
  . intro hgrantable
    rcases hgrantable with hle | ⟨k, hk⟩
    . omega
    . exact ⟨k, by omega⟩
  . intro ⟨k, hk⟩
    exact Or.inr ⟨k, by omega⟩

theorem failsUnchanged_iff (d : SoftwarePerfEventData) (bufferSize : UInt64)
    : d.FailsUnchanged bufferSize ↔ d.Grantable bufferSize := by
  unfold FailsUnchanged
  by_cases h : d.pagesize + d.data.len < bufferSize.toNat
  . rcases ensureMmapBuffer_of_lt h with ⟨hresult, hlen, -⟩
    rw [grantable_of_lt_iff h, hresult, decide_eq_false_iff_not]
    constructor
    . intro hunchanged
      by_contra hpopcnt
      have hdata := (hunchanged hpopcnt).1
      rw [hdata] at hlen
      omega
    . intro hpopcnt hnot
      exact absurd hpopcnt hnot
  . rw [ensureMmapBuffer_of_le h]
    simp only [Bool.true_eq_false, false_implies, true_iff]
    exact Or.inl (Nat.not_lt.mp h)

theorem len_data_fillCopyBuffer {buf : List UInt8} (h : d.fillCopyBuffer buf = some d')
    : d'.data.len = d.data.len := by
  unfold fillCopyBuffer at h
  rcases Option.bind_eq_some_iff.mp h with ⟨copyBuffer, _, h⟩
  rcases Option.bind_eq_some_iff.mp h with ⟨copyBuffer', _, h⟩
  cases h
  rfl

theorem len_data_copyRecord {dataHead : UInt64} {copySize : UInt16}
    (h : d.copyRecord dataHead copySize = some d')
    : d'.data.len = d.data.len := by
  unfold copyRecord at h
  simp only [Option.bind_eq_bind] at h
  split at h
  . rcases Option.bind_eq_some_iff.mp h with ⟨record, _, h⟩
    rcases Option.bind_eq_some_iff.mp h with ⟨data, hstore, h⟩
    cases h
    exact ByteMem.len_of_store hstore
  . rcases Option.bind_eq_some_iff.mp h with ⟨first, _, h⟩
    rcases Option.bind_eq_some_iff.mp h with ⟨data, hfirst, h⟩
    rcases Option.bind_eq_some_iff.mp h with ⟨second, _, h⟩
    rcases Option.bind_eq_some_iff.mp h with ⟨data', hsecond, h⟩
    cases h
    exact (ByteMem.len_of_store hsecond).trans (ByteMem.len_of_store hfirst)

theorem mmapSize_outputData {buf : List UInt8} (h : d.outputData buf = some d')
    : d'.mmapSize = d.mmapSize := by
  unfold outputData at h
  split at h
  . cases h
    rfl
  . rcases Option.bind_eq_some_iff.mp h with ⟨d₁, hfill, h⟩
    rcases Option.bind_eq_some_iff.mp h with ⟨d₂, hcopy, h⟩
    cases h
    change UInt64.ofNat d₂.data.len = UInt64.ofNat d.data.len
    rw [len_data_copyRecord hcopy, len_data_fillCopyBuffer hfill]

theorem staysPowerOfTwo_iff (hd : ZeroOrPowerOfTwo d.mmapSize) (op : Op)
    : d.StaysPowerOfTwo op ↔ d.OpGrantable op := by
  unfold StaysPowerOfTwo OpGrantable step
  cases op with
  | ensure bufferSize =>
    simp only [Option.some.injEq, forall_eq']
    by_cases h : d.pagesize + d.data.len < bufferSize.toNat
    . rw [(ensureMmapBuffer_of_lt h).2.2, grantable_of_lt_iff h, popcnt_eq_one_iff]
      unfold ZeroOrPowerOfTwo
      rw [or_iff_right]
      intro hzero
      have := toNat_dataSize h
      rw [hzero, UInt64.toNat_zero] at this
      omega
    . rw [ensureMmapBuffer_of_le h]
      exact ⟨fun _ => Or.inl (Nat.not_lt.mp h), fun _ => hd⟩
  | output buf =>
    simp only [iff_true]
    intro d' houtput
    rw [mmapSize_outputData houtput]
    exact hd
  | consume dataTail =>
    simp only [Option.some.injEq, forall_eq', iff_true]
    exact hd

theorem failsUnchanged_and_staysPowerOfTwo_iff (pagesize : Nat)
    : (∀ d bufferSize, FailsUnchanged d bufferSize ↔ Grantable d bufferSize)
        ∧
      (∀ ops, Run.AlongDefined step StaysPowerOfTwo (construct pagesize) ops
          ↔
        Run.AlongDefined step OpGrantable (construct pagesize) ops) := by
  refine ⟨failsUnchanged_iff, ?_⟩
  intro ops
  apply Run.alongDefined_iff_of_invariant fun d => ZeroOrPowerOfTwo d.mmapSize
  . intro d op d' hd hgrantable hstep
    exact (staysPowerOfTwo_iff hd op).mpr hgrantable d' hstep
  . intro d op hd
    exact staysPowerOfTwo_iff hd op
  . exact Or.inl rfl

theorem ensure_three_bytes_changed : let d := construct 4096
      (d.ensureMmapBuffer 4099).1 = false
        ∧ d.mmapSize = 0 ∧ (d.ensureMmapBuffer 4099).2.mmapSize = 3
        ∧ d.header.dataSize = 0 ∧ (d.ensureMmapBuffer 4099).2.header.dataSize = 3
        ∧ ¬ d.FailsUnchanged 4099
        ∧ ¬ d.StaysPowerOfTwo (.ensure 4099) := by
  intro d
  have hsize : ¬ d.Grantable 4099 := by
    rw [grantable_of_lt_iff (by decide)]
    decide
  refine ⟨by decide, rfl, by decide, rfl, by decide, ?_, ?_⟩
  . rw [failsUnchanged_iff]
    exact hsize
  . rw [staysPowerOfTwo_iff (Or.inl rfl)]
    exact hsize

end SoftwarePerfEventData

end Bpftime.PerfEvent
