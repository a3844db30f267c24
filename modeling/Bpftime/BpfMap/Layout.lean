import Bpftime.BpfMap.ArrayMap.Impl
import Bpftime.BpfMap.PerCpuArrayMap.Impl
import Bpftime.BpfMap.Queue.Impl
import Bpftime.BpfMap.Ringbuf.Lemmas.Words
import Bpftime.Data.Grid
import Bpftime.Data.Layout
import Bpftime.Data.RingSpace
import Bpftime.Data.SignExtend

namespace Bpftime

namespace ArrayMap

def layout (p : Params) : Layout UInt32 where
  offset := offset p
  size _ := p.valueSize.toNat
  len := (construct p).data.len

theorem strided_layout (p : Params)
    : (layout p).Strided (· < p.maxEntries) UInt32.toNat p.maxEntries.toNat p.valueSize.toNat
        (2 ^ 32) where
  size_eq := fun _ _ => rfl
  len_eq := by
    change (p.valueSize * p.maxEntries).toNat = _
    rw [UInt32.toNat_mul, Nat.mul_comm]
  index_lt := fun _ hkey => UInt32.lt_iff_toNat_lt.mp hkey
  index_inj := fun _ _ _ _ heq => UInt32.toNat_inj.mp heq
  index_surj := by
    intro e he
    have hlt := p.maxEntries.toNat_lt
    have hnat : (UInt32.ofNat e).toNat = e :=
      UInt32.toNat_ofNat_of_lt' (by change _ < 2 ^ 32; omega)
    refine ⟨.ofNat e, ?_, hnat⟩
    rw [UInt32.lt_iff_toNat_lt, hnat]
    exact he
  offset_eq := by
    intro key _ hlt
    change (key * p.valueSize).toNat = _
    rw [UInt32.toNat_mul, Nat.mod_eq_of_lt hlt]

end ArrayMap

namespace Queue

def layout {p : Params} (q : QueueMapImpl p) : Layout UInt32 where
  offset := QueueMapImpl.offset p
  size _ := p.valueSize.toNat
  len := q.data.len

theorem layout_eq {p : Params} {q : QueueMapImpl p} (h : construct p = some q)
    : layout q = ArrayMap.layout ⟨p.valueSize, p.maxEntries⟩ := by
  unfold construct at h
  split at h
  . cases h
  . cases h
    unfold layout ArrayMap.layout ArrayMap.construct
    rw [UInt32.mul_comm]
    rfl

end Queue

namespace PerCpuArrayMap

structure Cpus where
  ncpu : UInt32
  numbers : Nat
  ncpu_pos : 0 < ncpu.toNat
  ncpu_le : ncpu.toNat ≤ numbers
  numbers_lt : numbers < 2 ^ 31

variable {p : Params}

def layout (p : Params) : Layout (UInt32 × Int32) where
  offset i := dataAt p i.1.toUInt64 i.2.toInt64.toUInt64
  size _ := p.valueSize.toNat
  len := (construct p).data.len

def Valid (p : Params) (numbers : Nat) (i : UInt32 × Int32) : Prop :=
  i.1 < p.maxEntries ∧ 0 ≤ i.2.toInt ∧ i.2.toInt < numbers

def index (p : Params) (i : UInt32 × Int32) : Nat := i.1.toNat * p.ncpu.toNat + i.2.toInt.toNat

theorem dataAt_eq {i : UInt32 × Int32} (hpos : 0 < p.ncpu.toNat) (hncpu : p.ncpu.toNat < 2 ^ 31)
    (hcpu : 0 ≤ i.2.toInt) (hlt : index p i * p.valueSize.toNat < 2 ^ 32)
    : (layout p).offset i = index p i * p.valueSize.toNat := by
  have hsplit : index p i * p.valueSize.toNat
      = i.1.toNat * p.valueSize.toNat * p.ncpu.toNat + i.2.toInt.toNat * p.valueSize.toNat := by
    unfold index
    rw [Nat.add_mul, Nat.mul_right_comm]
  have hkey : i.1.toNat * p.valueSize.toNat ≤ i.1.toNat * p.valueSize.toNat * p.ncpu.toNat :=
    Nat.le_mul_of_pos_right _ hpos
  change dataAt p i.1.toUInt64 i.2.toInt64.toUInt64 = _
  unfold dataAt
  dsimp only
  rw [UInt64.toNat_add, UInt64.toNat_mul, UInt64.toNat_mul, UInt64.toNat_mul]
  rw [SignExtend.toNat_of_lt hncpu, SignExtend.toNat_of_nonneg hcpu, UInt32.toNat_toUInt64,
    UInt32.toNat_toUInt64]
  rw [hsplit] at hlt ⊢
  generalize i.1.toNat * p.valueSize.toNat = a at hkey hlt ⊢
  rw [Nat.mod_eq_of_lt (a := a) (by omega)]
  generalize a * p.ncpu.toNat = b at hkey hlt ⊢
  generalize i.2.toInt.toNat * p.valueSize.toNat = c at hlt ⊢
  rw [Nat.mod_eq_of_lt (a := b) (by omega), Nat.mod_eq_of_lt (a := c) (by omega)]
  rw [Nat.mod_eq_of_lt (by omega)]

theorem index_inj {i j : UInt32 × Int32} (hi : Valid p p.ncpu.toNat i)
    (hj : Valid p p.ncpu.toNat j) (h : index p i = index p j)
    : i = j := by
  have hicpu : i.2.toInt.toNat < p.ncpu.toNat := by
    have := hi.2
    omega
  have hjcpu : j.2.toInt.toNat < p.ncpu.toNat := by
    have := hj.2
    omega
  rcases Grid.pair_inj hicpu hjcpu h with ⟨hkey, hcpu⟩
  apply Prod.ext
  . exact UInt32.toNat_inj.mp hkey
  . apply Int32.toInt_inj.mp
    have := hi.2.1
    have := hj.2.1
    omega

theorem strided_layout (hpos : 0 < p.ncpu.toNat) (hncpu : p.ncpu.toNat < 2 ^ 31)
    : (layout p).Strided (Valid p p.ncpu.toNat) (index p) (p.maxEntries.toNat * p.ncpu.toNat)
        p.valueSize.toNat (2 ^ 32) where
  size_eq := fun _ _ => rfl
  len_eq := by
    change (p.maxEntries * p.ncpu * p.valueSize).toNat = _
    rw [UInt32.toNat_mul, UInt32.toNat_mul, Nat.mod_mul_mod]
  index_lt := by
    intro i hi
    have hcpu : i.2.toInt.toNat < p.ncpu.toNat := by
      have := hi.2
      omega
    exact Grid.pair_lt (UInt32.lt_iff_toNat_lt.mp hi.1) hcpu
  index_inj := fun _ _ hi hj heq => index_inj hi hj heq
  index_surj := by
    intro e he
    have hkey : e / p.ncpu.toNat < p.maxEntries.toNat := (Nat.div_lt_iff_lt_mul hpos).mpr he
    have hcpu : e % p.ncpu.toNat < p.ncpu.toNat := Nat.mod_lt _ hpos
    have hlt := p.maxEntries.toNat_lt
    have hkeyNat : (UInt32.ofNat (e / p.ncpu.toNat)).toNat = e / p.ncpu.toNat :=
      UInt32.toNat_ofNat_of_lt' (by change _ < 2 ^ 32; omega)
    have hcpuInt := Int32.toInt_ofNat_of_lt (Nat.lt_trans hcpu hncpu)
    refine ⟨(.ofNat (e / p.ncpu.toNat), .ofNat (e % p.ncpu.toNat)), ⟨?_, ?_, ?_⟩, ?_⟩
    . rw [UInt32.lt_iff_toNat_lt, hkeyNat]
      exact hkey
    . rw [hcpuInt]
      omega
    . rw [hcpuInt]
      omega
    . unfold index
      rw [hkeyNat, hcpuInt, Int.toNat_natCast]
      exact Nat.div_add_mod' e p.ncpu.toNat
  offset_eq := fun _ hi hlt => dataAt_eq hpos hncpu hi.2.1 hlt

theorem not_inside_of_numbers {numbers : Nat} (hpos : 0 < p.ncpu.toNat)
    (hnumbers : p.ncpu.toNat < numbers) (hncpu : p.ncpu.toNat < 2 ^ 31)
    (hvalue : 0 < p.valueSize.toNat) (hentries : 0 < p.maxEntries.toNat)
    (hlt : p.maxEntries.toNat * p.ncpu.toNat * p.valueSize.toNat < 2 ^ 32)
    : ∃ i, Valid p numbers i ∧ ¬ (layout p).Inside i := by
  have hmax := p.maxEntries.toNat_lt
  have hkey : (UInt32.ofNat (p.maxEntries.toNat - 1)).toNat = p.maxEntries.toNat - 1 :=
    UInt32.toNat_ofNat_of_lt' (by change _ < 2 ^ 32; omega)
  have hcpu := Int32.toInt_ofNat_of_lt hncpu
  have hindex : index p (.ofNat (p.maxEntries.toNat - 1), .ofNat p.ncpu.toNat)
      = p.maxEntries.toNat * p.ncpu.toNat := by
    unfold index
    rw [hkey, hcpu, Int.toNat_natCast, ← Nat.succ_mul, Nat.succ_eq_add_one,
      Nat.sub_add_cancel hentries]
  refine ⟨(.ofNat (p.maxEntries.toNat - 1), .ofNat p.ncpu.toNat), ⟨?_, ?_, ?_⟩, ?_⟩
  . rw [UInt32.lt_iff_toNat_lt, hkey]
    omega
  . rw [hcpu]
    omega
  . rw [hcpu]
    exact_mod_cast hnumbers
  . have hoffset := dataAt_eq (i := (.ofNat (p.maxEntries.toNat - 1), .ofNat p.ncpu.toNat)) hpos
      hncpu (by rw [hcpu]; omega) (by rw [hindex]; exact hlt)
    have hlen := (strided_layout hpos hncpu).len_eq
    rw [Nat.mod_eq_of_lt hlt] at hlen
    unfold Layout.Inside
    rw [hoffset, hindex, hlen]
    change ¬ _ + p.valueSize.toNat ≤ _
    omega

theorem sound_of_zero {numbers : Nat} (h : p.valueSize = 0 ∨ p.maxEntries = 0)
    (hpos : 0 < p.ncpu.toNat) (hncpu : p.ncpu.toNat < 2 ^ 31)
    : (layout p).Sound (Valid p numbers) (· ≠ ·) := by
  rcases h with hvalue | hentries
  . have hzero : p.valueSize.toNat = 0 := by
      rw [hvalue]
      rfl
    have hoffset : ∀ i, Valid p numbers i → (layout p).offset i = 0 := by
      intro i hi
      rw [dataAt_eq hpos hncpu hi.2.1 (by rw [hzero, Nat.mul_zero]; decide), hzero, Nat.mul_zero]
    have hsize : ∀ i, (layout p).size i = 0 := fun _ => hzero
    constructor
    . intro i hi
      unfold Layout.Inside
      rw [hoffset i hi, hsize]
      exact Nat.zero_le _
    . intro i j hi hj _
      unfold Layout.Apart
      rw [hoffset i hi, hoffset j hj, hsize]
      exact .inl (Nat.le_refl _)
  . have hnone : ∀ i, ¬ Valid p numbers i := by
      intro i hi
      have := UInt32.lt_iff_toNat_lt.mp hi.1
      rw [hentries] at this
      exact Nat.not_lt_zero _ this
    constructor
    . intro i hi
      exact absurd hi (hnone i)
    . intro i _ hi
      exact absurd hi (hnone i)

theorem sound_iff (valueSize maxEntries : UInt32) (cpus : Cpus)
    : (layout ⟨valueSize, maxEntries, cpus.ncpu⟩).Sound
          (Valid ⟨valueSize, maxEntries, cpus.ncpu⟩ cpus.numbers) (· ≠ ·)
        ↔
      valueSize = 0 ∨ maxEntries = 0
        ∨ (cpus.numbers = cpus.ncpu.toNat
            ∧ maxEntries.toNat * cpus.ncpu.toNat * valueSize.toNat < 2 ^ 32) := by
  have hpos := cpus.ncpu_pos
  have hle := cpus.ncpu_le
  have hncpu : cpus.ncpu.toNat < 2 ^ 31 := Nat.lt_of_le_of_lt hle cpus.numbers_lt
  have hstrided := strided_layout (p := ⟨valueSize, maxEntries, cpus.ncpu⟩) hpos hncpu
  by_cases hzero : valueSize = 0 ∨ maxEntries = 0
  . rw [← or_assoc]
    exact ⟨fun _ => .inl hzero, fun _ => sound_of_zero hzero hpos hncpu⟩
  . rw [← or_assoc, or_iff_right hzero]
    rw [not_or] at hzero
    have hvalue : 0 < valueSize.toNat := Nat.pos_of_ne_zero fun h => hzero.1 (UInt32.toNat_inj.mp h)
    have hentries : 0 < maxEntries.toNat :=
      Nat.pos_of_ne_zero fun h => hzero.2 (UInt32.toNat_inj.mp h)
    constructor
    . intro hsound
      have hlt : maxEntries.toNat * cpus.ncpu.toNat * valueSize.toNat < 2 ^ 32 := by
        apply hstrided.lt_of_sound (by decide)
        apply hsound.mono
        intro i hi
        exact ⟨hi.1, hi.2.1, Int.lt_of_lt_of_le hi.2.2 (by exact_mod_cast hle)⟩
      refine ⟨?_, hlt⟩
      by_contra hne
      rcases not_inside_of_numbers (p := ⟨valueSize, maxEntries, cpus.ncpu⟩) hpos
        (Nat.lt_of_le_of_ne hle (Ne.symm hne)) hncpu hvalue hentries hlt with ⟨i, hi, hnot⟩
      exact hnot (hsound.inside i hi)
    . intro ⟨hnumbers, hlt⟩
      rw [hnumbers]
      exact hstrided.sound hlt

end PerCpuArrayMap

namespace RingbufMap

def layout (p : Params) (consumerPos : UInt64) : Layout (Nat × Nat) where
  offset i := headerAt p (consumerPos + .ofNat i.1)
  size i := i.2
  len := (construct p).rawBuffer.len

def Valid (p : Params) (i : Nat × Nat) : Prop := 0 < i.2 ∧ i.1 + i.2 ≤ p.maxEnt.toNat

def Differ (i j : Nat × Nat) : Prop := i.1 + i.2 ≤ j.1 ∨ j.1 + j.2 ≤ i.1

variable {p : Params} {consumerPos : UInt64}

theorem offset_layout (i : Nat × Nat)
    : (layout p consumerPos).offset i = data p + (consumerPos.toNat + i.1) % cap p := by
  change headerAt p (consumerPos + .ofNat i.1) = _
  rw [headerAt_eq, UInt64.toNat_add, mod_cap_of_mod, UInt64.toNat_ofNat', Nat.add_mod,
    mod_cap_of_mod, ← Nat.add_mod]

theorem sound_of_le (h : cap p ≤ 2 ^ 30) : (layout p consumerPos).Sound (Valid p) Differ := by
  have happart {i j : Nat × Nat} (hj : Valid p j) (hij : i.1 + i.2 ≤ j.1)
      : (layout p consumerPos).Apart i j := by
    unfold Layout.Apart
    rw [offset_layout, offset_layout]
    have hwindow : consumerPos.toNat + j.1 + j.2 ≤ consumerPos.toNat + i.1 + cap p := by
      have : j.1 + j.2 ≤ cap p := hj.2
      omega
    have hbehind : consumerPos.toNat + i.1 + i.2 ≤ consumerPos.toNat + j.1 := by omega
    have := RingSpace.linear_apart hbehind hwindow hj.1
    change data p + _ + i.2 ≤ _ ∨ data p + _ + j.2 ≤ _
    omega
  constructor
  . intro i hi
    have hmod : (consumerPos.toNat + i.1) % cap p < cap p := Nat.mod_lt _ cap_pos
    have hle : i.1 + i.2 ≤ cap p := hi.2
    unfold Layout.Inside
    have hlen : (layout p consumerPos).len = data p + 2 * cap p := construct_len_of_le h
    rw [offset_layout, hlen]
    change data p + _ + i.2 ≤ _
    omega
  . intro i j hi hj hdiffer
    rcases hdiffer with hij | hji
    . exact happart hj hij
    . exact (happart hi hji).symm

theorem sound_layout_iff (p : Params)
    : (∀ consumerPos, (layout p consumerPos).Sound (Valid p) Differ) ↔ p.maxEnt.toNat ≤ 2 ^ 30 := by
  constructor
  . intro h
    by_contra hgt
    have hinside := (h 0).inside (0, 1) ⟨Nat.one_pos, cap_pos⟩
    have hlen : (layout p 0).len = data p := construct_len (cap_le_or_eq.resolve_left hgt)
    unfold Layout.Inside at hinside
    rw [offset_layout, hlen] at hinside
    change data p + _ + 1 ≤ data p at hinside
    omega
  . intro hle consumerPos
    exact sound_of_le hle

end RingbufMap

theorem layouts_sound_iff (valueSize maxEntries : UInt32) (cpus : PerCpuArrayMap.Cpus)
    (ring : RingbufMap.Params)
    : ((ArrayMap.layout ⟨valueSize, maxEntries⟩).Sound (· < maxEntries) (· ≠ ·)
          ↔
        maxEntries.toNat * valueSize.toNat < 2 ^ 32)
        ∧
      ((PerCpuArrayMap.layout ⟨valueSize, maxEntries, cpus.ncpu⟩).Sound
          (PerCpuArrayMap.Valid ⟨valueSize, maxEntries, cpus.ncpu⟩ cpus.numbers) (· ≠ ·)
          ↔
        valueSize = 0 ∨ maxEntries = 0
          ∨ (cpus.numbers = cpus.ncpu.toNat
              ∧ maxEntries.toNat * cpus.ncpu.toNat * valueSize.toNat < 2 ^ 32))
        ∧
      (∀ q, Queue.construct ⟨valueSize, maxEntries⟩ = some q →
        ((Queue.layout q).Sound (· < maxEntries) (· ≠ ·)
          ↔
        maxEntries.toNat * valueSize.toNat < 2 ^ 32))
        ∧
      ((∀ consumerPos, (RingbufMap.layout ring consumerPos).Sound (RingbufMap.Valid ring)
            RingbufMap.Differ)
          ↔
        ring.maxEnt.toNat ≤ 2 ^ 30) := by
  have harray := (ArrayMap.strided_layout ⟨valueSize, maxEntries⟩).sound_iff (by decide)
  refine ⟨harray, PerCpuArrayMap.sound_iff valueSize maxEntries cpus, ?_, ?_⟩
  . intro q hq
    rw [Queue.layout_eq hq]
    exact harray
  . exact RingbufMap.sound_layout_iff ring

theorem array_65536_not_sound : (ArrayMap.construct ⟨65536, 65536⟩).data.len = 0
        ∧ (ArrayMap.construct ⟨65536, 65536⟩).elemLookup 1 = .ok 65536
        ∧ ¬ (ArrayMap.layout ⟨65536, 65536⟩).Sound (· < 65536) (· ≠ ·) := by
  refine ⟨by decide, by decide, ?_⟩
  intro hsound
  have hinside := hsound.inside 1 (by decide)
  unfold Layout.Inside at hinside
  revert hinside
  decide

end Bpftime
