import Bpftime.Data.Circular
import Bpftime.PerfEvent.Impl

namespace Bpftime.PerfEvent

@[simp]
theorem PerfSampleRaw.length_encode (head : PerfSampleRaw)
    : head.encode.length = sizeofPerfSampleRaw := rfl

theorem PerfSampleRaw.toNat_size_ofPayload {buf : List UInt8}
    (h : sizeofPerfSampleRaw + buf.length < 65536)
    : (ofPayload buf).header.size.toNat = sizeofPerfSampleRaw + buf.length := by
  unfold ofPayload
  rw [UInt16.toNat_ofNat']
  exact Nat.mod_eq_of_lt h

def recordOf (buf : List UInt8) : List UInt8 := (PerfSampleRaw.ofPayload buf).encode ++ buf

@[simp]
theorem length_recordOf (buf : List UInt8)
    : (recordOf buf).length = sizeofPerfSampleRaw + buf.length := by
  simp [recordOf]

namespace SoftwarePerfEventData

variable {d : SoftwarePerfEventData} {k : Nat}

def used (d : SoftwarePerfEventData) : Nat := (d.header.dataHead - d.header.dataTail).toNat

theorem toNat_mmapSize (hk : k < 64) (hlen : d.data.len = 2 ^ k) : d.mmapSize.toNat = 2 ^ k := by
  unfold mmapSize
  rw [UInt64.toNat_ofNat', hlen]
  exact Nat.mod_eq_of_lt (Nat.pow_lt_pow_right (by omega) hk)

theorem toNat_availableSize (hk : k < 64) (hlen : d.data.len = 2 ^ k) (hused : d.used < 2 ^ k)
    : d.availableSize.toNat = 2 ^ k - d.used := by
  have hsize := toNat_mmapSize hk hlen
  have hsub : (d.mmapSize - (d.header.dataHead - d.header.dataTail)).toNat = 2 ^ k - d.used := by
    rw [UInt64.toNat_sub_of_le, hsize]
    . rfl
    . rw [UInt64.le_iff_toNat_le, hsize]
      exact Nat.le_of_lt hused
  unfold availableSize
  dsimp only
  rw [if_neg]
  . exact hsub
  . intro heq
    rw [heq, UInt64.toNat_zero] at hsub
    omega

theorem lt_of_not_drops (hk : k < 64) (hlen : d.data.len = 2 ^ k) (hused : d.used < 2 ^ k)
    {buf : List UInt8} (hsmall : sizeofPerfSampleRaw + buf.length < 65536) (h : ¬ d.drops buf)
    : d.used + (recordOf buf).length < 2 ^ k := by
  have havailable := toNat_availableSize hk hlen hused
  unfold drops at h
  rw [PerfSampleRaw.toNat_size_ofPayload hsmall] at h
  have hint : d.availableSize.toInt64.toInt ≤ d.availableSize.toNat := by
    change d.availableSize.toBitVec.toInt ≤ d.availableSize.toBitVec.toNat
    rw [BitVec.toInt_eq_toNat_cond]
    split
    next => exact Int.le_refl _
    next => omega
  rw [length_recordOf]
  omega

theorem fillCopyBuffer_eq {buf : List UInt8} (hsmall : sizeofPerfSampleRaw + buf.length < 65536)
    : ∃ copyBuffer, d.fillCopyBuffer buf = some { d with copyBuffer }
        ∧ copyBuffer.len = (recordOf buf).length
        ∧ copyBuffer.bytes 0 (recordOf buf).length = recordOf buf := by
  unfold fillCopyBuffer
  dsimp only
  rw [PerfSampleRaw.toNat_size_ofPayload hsmall]
  generalize hbuffer : (if d.copyBuffer.len ≠ sizeofPerfSampleRaw + buf.length then
    d.copyBuffer.resize (sizeofPerfSampleRaw + buf.length) else d.copyBuffer) = copyBuffer
  have hlen : copyBuffer.len = sizeofPerfSampleRaw + buf.length := by
    rw [← hbuffer]
    split
    next => rfl
    next h => exact not_not.mp h
  rw [ByteMem.store_eq_some]
  . simp only [Option.bind_eq_bind, Option.bind_some]
    rw [ByteMem.store_eq_some]
    . refine ⟨_, rfl, ?_, ?_⟩
      . rw [length_recordOf]
        exact hlen
      . rw [length_recordOf]
        have := ByteMem.bytes_write_write copyBuffer 0 (PerfSampleRaw.ofPayload buf).encode buf
        rw [PerfSampleRaw.length_encode, Nat.zero_add] at this
        exact this
    . rw [ByteMem.write_len]
      omega
  . rw [PerfSampleRaw.length_encode]
    omega

theorem toNat_and_mask (hk : k < 64) (hlen : d.data.len = 2 ^ k) (dataHead : UInt64)
    : (dataHead &&& (d.mmapSize - 1)).toNat = dataHead.toNat % 2 ^ k := by
  have hsize := toNat_mmapSize hk hlen
  have hpos := Nat.two_pow_pos k
  rw [UInt64.toNat_and, UInt64.toNat_sub_of_le, hsize]
  . exact Nat.and_two_pow_sub_one_eq_mod dataHead.toNat k
  . rw [UInt64.le_iff_toNat_le, hsize]
    exact hpos

theorem copyRecord_eq (hk : k < 64) (hlen : d.data.len = 2 ^ k) (dataHead : UInt64)
    {copySize : UInt16} {record : List UInt8} (hcopySize : copySize.toNat = record.length)
    (hcopyLen : d.copyBuffer.len = record.length)
    (hrecord : d.copyBuffer.bytes 0 record.length = record) (hfits : record.length ≤ 2 ^ k)
    : ∃ data, d.copyRecord dataHead copySize = some { d with data } ∧ data.len = 2 ^ k
        ∧ Circular.Written (2 ^ k) dataHead.toNat record d.data.byte data.byte := by
  have hstart : dataHead.toNat % 2 ^ k < 2 ^ k := Nat.mod_lt _ (Nat.two_pow_pos k)
  unfold copyRecord
  dsimp only
  rw [toNat_and_mask hk hlen, toNat_mmapSize hk hlen, hcopySize]
  generalize hs : dataHead.toNat % 2 ^ k = start at hstart ⊢
  split
  next hone =>
    rw [ByteMem.load_eq_some (by omega), hrecord]
    simp only [Option.bind_eq_bind, Option.bind_some]
    rw [ByteMem.store_eq_some (by omega)]
    refine ⟨_, rfl, hlen, ?_⟩
    exact Circular.written_write d.data hs.symm (by omega)
  next htwo =>
    obtain ⟨second, hsecond⟩ : ∃ second, record.length = 2 ^ k - start + second :=
      ⟨_, (Nat.add_sub_cancel' (by omega)).symm⟩
    have hsplit := hrecord
    rw [hsecond, ByteMem.bytes_add, Nat.zero_add] at hsplit
    rw [ByteMem.load_eq_some (by omega), ByteMem.load_eq_some (by omega)]
    simp only [Option.bind_eq_bind, Option.bind_some]
    rw [ByteMem.store_eq_some (by rw [ByteMem.length_bytes]; omega)]
    simp only [Option.bind_some]
    rw [ByteMem.store_eq_some (by rw [ByteMem.length_bytes, ByteMem.write_len]; omega)]
    refine ⟨_, rfl, hlen, ?_⟩
    rw [hsecond, Nat.add_sub_cancel_left, ← hsplit]
    apply Circular.Written.append
    . apply Circular.written_write
      . exact hs.symm
      . rw [ByteMem.length_bytes]
        omega
    . apply Circular.written_write
      . rw [ByteMem.length_bytes, ← Nat.mod_add_mod, hs, Nat.add_sub_cancel' (by omega), Nat.mod_self]
      . rw [ByteMem.length_bytes]
        omega
    . rw [ByteMem.length_bytes, ByteMem.length_bytes]
      omega

end SoftwarePerfEventData

end Bpftime.PerfEvent
