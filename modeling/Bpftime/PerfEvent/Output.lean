import Bpftime.PerfEvent.Copy

namespace Bpftime.PerfEvent

namespace SoftwarePerfEventData

structure Appended (d d' : SoftwarePerfEventData) (buf : List UInt8) : Prop where
  fits : sizeofPerfSampleRaw + buf.length ≤ d.data.len
  size_eq : (PerfSampleRaw.ofPayload buf).header.size.toNat = sizeofPerfSampleRaw + buf.length
  header_eq : d'.header
    = { d.header with
        dataHead := d.header.dataHead + .ofNat (sizeofPerfSampleRaw + buf.length) }
  len_eq : d'.data.len = d.data.len
  written : Circular.Written d.data.len d.header.dataHead.toNat (recordOf buf) d.data.byte
    d'.data.byte

/-- The record is dropped or appended as a whole. -/
def DropsOrAppends (d : SoftwarePerfEventData) (buf : List UInt8) : Prop :=
  ∃ d', d.outputData buf = some d' ∧ (d' = d ∨ d.Appended d' buf)

variable {d d' : SoftwarePerfEventData} {buf : List UInt8} {k : Nat}

theorem outputData_of_drops (h : d.drops buf) : d.outputData buf = some d := by
  unfold outputData
  rw [if_pos h]

theorem fillCopyBuffer_of_large (h : 65536 ≤ sizeofPerfSampleRaw + buf.length)
    : d.fillCopyBuffer buf = none := by
  have hsize : (PerfSampleRaw.ofPayload buf).header.size.toNat < 65536 := UInt16.toNat_lt _
  unfold fillCopyBuffer
  dsimp only
  generalize hbuffer : (if d.copyBuffer.len ≠ (PerfSampleRaw.ofPayload buf).header.size.toNat then
    d.copyBuffer.resize (PerfSampleRaw.ofPayload buf).header.size.toNat else d.copyBuffer)
      = copyBuffer
  have hlen : copyBuffer.len = (PerfSampleRaw.ofPayload buf).header.size.toNat := by
    rw [← hbuffer]
    split
    next => rfl
    next h => exact not_not.mp h
  cases hstore : copyBuffer.store 0 (PerfSampleRaw.ofPayload buf).encode with
  | none => rfl
  | some filled =>
    have hfilled := ByteMem.len_of_store hstore
    simp only [Option.bind_eq_bind, Option.bind_some]
    rw [ByteMem.store_eq_none (by omega)]
    rfl

theorem outputData_of_large (hdrops : ¬ d.drops buf) (h : 65536 ≤ sizeofPerfSampleRaw + buf.length)
    : d.outputData buf = none := by
  unfold outputData
  rw [if_neg hdrops]
  simp only [Option.bind_eq_bind]
  rw [fillCopyBuffer_of_large h]
  rfl

theorem dataHead_outputData (hdrops : ¬ d.drops buf) (h : d.outputData buf = some d')
    : d'.header.dataHead
        =
      d.header.dataHead + (PerfSampleRaw.ofPayload buf).header.size.toUInt64 := by
  unfold outputData at h
  rw [if_neg hdrops] at h
  rcases Option.bind_eq_some_iff.mp h with ⟨d₁, _, h⟩
  rcases Option.bind_eq_some_iff.mp h with ⟨d₂, _, h⟩
  cases h
  rfl

theorem toUInt64_size_ofPayload (hsmall : sizeofPerfSampleRaw + buf.length < 65536)
    : (PerfSampleRaw.ofPayload buf).header.size.toUInt64
        =
      .ofNat (sizeofPerfSampleRaw + buf.length) := by
  apply UInt64.toNat_inj.mp
  rw [UInt16.toNat_toUInt64, PerfSampleRaw.toNat_size_ofPayload hsmall, UInt64.toNat_ofNat']
  rw [Nat.mod_eq_of_lt (by omega)]

theorem outputData_ne_self (hdrops : ¬ d.drops buf)
    (hsmall : sizeofPerfSampleRaw + buf.length < 65536)
    : d.outputData buf ≠ some d := by
  intro h
  have hhead := congrArg UInt64.toNat (dataHead_outputData hdrops h)
  have hlt := d.header.dataHead.toNat_lt
  rw [UInt64.toNat_add, UInt16.toNat_toUInt64, PerfSampleRaw.toNat_size_ofPayload hsmall] at hhead
  unfold sizeofPerfSampleRaw at hhead hsmall
  omega

theorem appended_outputData (hk : k < 64) (hlen : d.data.len = 2 ^ k) (hdrops : ¬ d.drops buf)
    (hsmall : sizeofPerfSampleRaw + buf.length < 65536)
    (hfits : sizeofPerfSampleRaw + buf.length ≤ 2 ^ k)
    : ∃ d', d.outputData buf = some d' ∧ d.Appended d' buf := by
  have hsize := PerfSampleRaw.toNat_size_ofPayload hsmall
  have hcopySize : (PerfSampleRaw.ofPayload buf).header.size.toNat = (recordOf buf).length := by
    rw [hsize, length_recordOf]
  rw [← length_recordOf] at hfits
  rcases fillCopyBuffer_eq (d := d) hsmall with ⟨copyBuffer, hfill, hcopyLen, hrecord⟩
  rcases copyRecord_eq (d := { d with copyBuffer }) hk hlen d.header.dataHead hcopySize hcopyLen
    hrecord hfits with ⟨data, hcopy, hdata, hwritten⟩
  unfold outputData
  rw [if_neg hdrops]
  simp only [Option.bind_eq_bind]
  rw [hfill, Option.bind_some, hcopy, Option.bind_some]
  refine ⟨_, rfl, ?_, hsize, ?_, ?_, ?_⟩
  . rw [hlen, ← length_recordOf]
    exact hfits
  . unfold storeHead
    rw [toUInt64_size_ofPayload hsmall]
  . rw [hlen]
    exact hdata
  . rw [hlen]
    exact hwritten

theorem dropsOrAppends_iff (d : SoftwarePerfEventData) (k : Nat) (hk : k < 64)
    (hlen : d.data.len = 2 ^ k) (buf : List UInt8)
    : d.DropsOrAppends buf
        ↔
      d.drops buf
        ∨ (sizeofPerfSampleRaw + buf.length < 65536
            ∧ sizeofPerfSampleRaw + buf.length ≤ d.data.len) := by
  constructor
  . intro ⟨d', houtput, h⟩
    by_cases hdrops : d.drops buf
    . exact Or.inl hdrops
    . right
      have hsmall : sizeofPerfSampleRaw + buf.length < 65536 := by
        by_contra hlarge
        rw [outputData_of_large hdrops (by omega)] at houtput
        cases houtput
      rcases h with rfl | happended
      . exact absurd houtput (outputData_ne_self hdrops hsmall)
      . exact ⟨hsmall, happended.fits⟩
  . intro h
    by_cases hdrops : d.drops buf
    . exact ⟨d, outputData_of_drops hdrops, Or.inl rfl⟩
    . rcases h with h | ⟨hsmall, hfits⟩
      . exact absurd h hdrops
      . rw [hlen] at hfits
        rcases appended_outputData hk hlen hdrops hsmall hfits with ⟨d', houtput, happended⟩
        exact ⟨d', houtput, Or.inr happended⟩

def area32 : SoftwarePerfEventData := ((construct 4096).ensureMmapBuffer 4128).2

theorem dropsOrAppends_area32 : area32.data.len = 2 ^ 5 ∧ area32.DropsOrAppends [1, 2, 3, 4] := by
  refine ⟨by decide, ?_⟩
  apply (dropsOrAppends_iff area32 5 (by decide) (by decide) [1, 2, 3, 4]).mpr
  decide

theorem large_payload_not_dropped : area32.data.len = 2 ^ 5
        ∧ ¬ area32.drops (.replicate 65536 0)
        ∧ area32.outputData (.replicate 65536 0) = none
        ∧ ¬ area32.DropsOrAppends (.replicate 65536 0) := by
  have hlarge : 65536 ≤ sizeofPerfSampleRaw + (List.replicate 65536 (0 : UInt8)).length := by
    rw [List.length_replicate]
    decide
  have hdrops : ¬ area32.drops (.replicate 65536 0) := by
    unfold drops PerfSampleRaw.ofPayload
    rw [List.length_replicate]
    decide
  have hnone := outputData_of_large hdrops hlarge
  refine ⟨by decide, hdrops, hnone, ?_⟩
  intro ⟨d', houtput, _⟩
  rw [hnone] at houtput
  cases houtput

end SoftwarePerfEventData

end Bpftime.PerfEvent
