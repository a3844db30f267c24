import Bpftime.BpfMap.GpuArray.Threads
import Bpftime.Data.Layout

namespace Bpftime.GpuArray

namespace MapAttr

variable (a : MapAttr)

def threads : ℕ := a.getGpuMapMaxThreadCount.toNat

def Allows (l : Launch) : Prop :=
  match a.type with
  | .perGpuTdArray => l.total ≤ a.gpuThreadCount.toNat
  | .gpuArray => True

def position (l : Launch) (t : Thread) : ℕ :=
  match a.type with
  | .perGpuTdArray => linear l t
  | .gpuArray => 0

def deviceSlots (gpuBuffer : UInt64) (l : Launch) : Layout (UInt32 × Thread) where
  offset i := (bpfHelperExt0001 l i.2 (a.mapBasicInfo gpuBuffer) i.1 - gpuBuffer).toNat
  size i := (bpfHelperExt0002 l i.2 (a.mapBasicInfo gpuBuffer) i.1).size
  len := a.totalBufferSize.toNat

def Reached (l : Launch) (i : UInt32 × Thread) : Prop := i.1 < a.maxEnts ∧ l.Runs i.2

def Differ (i j : UInt32 × Thread) : Prop :=
  match a.type with
  | .perGpuTdArray => i ≠ j
  | .gpuArray => i.1 ≠ j.1

structure ReachesSlot (gpuBuffer : UInt64) (l : Launch) (i : UInt32 × Thread) : Prop where
  lookup : ∃ r, a.elemLookup i.1 = .ok r
    ∧ (a.deviceSlots gpuBuffer l).offset i = r.offset.toNat + a.position l i.2 * a.valueSize.toNat
  update : bpfHelperExt0002 l i.2 (a.mapBasicInfo gpuBuffer) i.1
    = ⟨bpfHelperExt0001 l i.2 (a.mapBasicInfo gpuBuffer) i.1, a.valueSize.toNat, 0⟩

structure SlotsAgree (gpuBuffer : UInt64) (l : Launch) : Prop where
  reaches : ∀ i, a.Reached l i → a.ReachesSlot gpuBuffer l i
  sound : (a.deviceSlots gpuBuffer l).Sound (a.Reached l) a.Differ

structure Rejects (gpuBuffer : UInt64) (l : Launch) (key : UInt32) : Prop where
  host : ∃ e, a.elemLookup key = .error e
  lookup : ∀ t, l.Runs t → bpfHelperExt0001 l t (a.mapBasicInfo gpuBuffer) key = 0
  update : ∀ t, l.Runs t → (bpfHelperExt0002 l t (a.mapBasicInfo gpuBuffer) key).result ≠ 0

/-- Host and device agree on the slots of a valid key and refuse any other. -/
def HandlesKey (gpuBuffer : UInt64) (key : UInt32) : Prop :=
  ∀ l, a.Allows l →
    (key < a.maxEnts → a.SlotsAgree gpuBuffer l)
      ∧ (¬ key < a.maxEnts → a.Rejects gpuBuffer l key)

def Addressable (key : UInt32) : Prop :=
  match a.type with
  | .perGpuTdArray =>
    a.gpuThreadCount.toNat = 0
      ∨ (key < a.maxEnts
          ∧ (a.valueSize.toNat = 0
              ∨ (a.gpuThreadCount.toNat ≤ 2 ^ 31
                  ∧ a.valueSize.toNat < 2 ^ 31
                  ∧ a.maxEnts.toNat * a.gpuThreadCount.toNat * a.valueSize.toNat < 2 ^ 64)))
  | .gpuArray => key < a.maxEnts ∧ a.valueSize.toNat < 2 ^ 31

-- The slots of the host.

def entrySize : UInt64 :=
  match a.type with
  | .perGpuTdArray => a.perThread.entrySize
  | .gpuArray => a.shared.valueSize

def hostSlots : Layout (UInt32 × ℕ) where
  offset i := (i.1.toUInt64 * a.entrySize).toNat + i.2 * a.valueSize.toNat
  size _ := a.valueSize.toNat
  len := a.totalBufferSize.toNat

def HostValid (i : UInt32 × ℕ) : Prop := i.1 < a.maxEnts ∧ i.2 < a.threads

def hostIndex (i : UInt32 × ℕ) : ℕ := i.1.toNat * a.threads + i.2

variable {a} {gpuBuffer : UInt64} {key : UInt32} {l : Launch} {t : Thread}

theorem threads_of_perGpuTdArray (h : a.type = .perGpuTdArray)
    : a.threads = a.gpuThreadCount.toNat := by
  unfold threads getGpuMapMaxThreadCount
  rw [h]
  exact UInt32.toNat_toUInt64 _

theorem threads_of_gpuArray (h : a.type = .gpuArray) : a.threads = 1 := by
  unfold threads getGpuMapMaxThreadCount
  rw [h]
  rfl

theorem elemLookup_of_lt (h : key < a.maxEnts)
    : a.elemLookup key = .ok ⟨key.toUInt64 * a.entrySize, a.entrySize⟩ := by
  have hnot : ¬ key.toUInt64 ≥ a.maxEnts.toUInt64 := by
    rw [ge_iff_le, UInt64.le_iff_toNat_le, UInt32.toNat_toUInt64, UInt32.toNat_toUInt64]
    exact Nat.not_le_of_lt (UInt32.lt_iff_toNat_lt.mp h)
  unfold elemLookup entrySize
  cases a.type with
  | perGpuTdArray | gpuArray => exact if_neg hnot

theorem elemLookup_of_not_lt (h : ¬ key < a.maxEnts) : a.elemLookup key = .error .ENOENT := by
  have hge : key.toUInt64 ≥ a.maxEnts.toUInt64 := by
    rw [ge_iff_le, UInt64.le_iff_toNat_le, UInt32.toNat_toUInt64, UInt32.toNat_toUInt64]
    exact Nat.le_of_not_lt (fun hlt => h (UInt32.lt_iff_toNat_lt.mpr hlt))
  unfold elemLookup
  cases a.type with
  | perGpuTdArray | gpuArray => exact if_pos hge

theorem toNat_entrySize : a.entrySize.toNat = a.threads * a.valueSize.toNat := by
  unfold entrySize
  cases htype : a.type with
  | perGpuTdArray =>
    have hlt : a.gpuThreadCount.toNat * a.valueSize.toNat < 2 ^ 64 := by
      change _ < 2 ^ 32 * 2 ^ 32
      exact Nat.mul_lt_mul'' a.gpuThreadCount.toNat_lt a.valueSize.toNat_lt
    rw [threads_of_perGpuTdArray htype]
    change (a.gpuThreadCount.toUInt64 * a.valueSize.toUInt64).toNat = _
    rw [UInt64.toNat_mul, UInt32.toNat_toUInt64, UInt32.toNat_toUInt64, Nat.mod_eq_of_lt hlt]
  | gpuArray =>
    rw [threads_of_gpuArray htype, Nat.one_mul]
    exact UInt32.toNat_toUInt64 _

theorem toNat_totalBufferSize
    : a.totalBufferSize.toNat = a.maxEnts.toNat * a.threads * a.valueSize.toNat % 2 ^ 64 := by
  unfold totalBufferSize
  cases htype : a.type with
  | perGpuTdArray =>
    rw [threads_of_perGpuTdArray htype, Nat.mul_comm _ a.valueSize.toNat, ← Nat.mul_assoc]
    change (a.valueSize.toUInt64 * a.maxEnts.toUInt64 * a.gpuThreadCount.toUInt64).toNat = _
    rw [UInt64.toNat_mul, UInt64.toNat_mul, Nat.mod_mul_mod]
    simp only [UInt32.toNat_toUInt64]
  | gpuArray =>
    rw [threads_of_gpuArray htype, Nat.mul_one, Nat.mul_comm]
    change (a.valueSize.toUInt64 * a.maxEnts.toUInt64).toNat = _
    rw [UInt64.toNat_mul]
    simp only [UInt32.toNat_toUInt64]

theorem hostIndex_lt {i : UInt32 × ℕ} (hi : a.HostValid i)
    : a.hostIndex i < a.maxEnts.toNat * a.threads :=
  Grid.pair_lt (UInt32.lt_iff_toNat_lt.mp hi.1) hi.2

theorem offset_hostSlots {i : UInt32 × ℕ} (hlt : a.hostIndex i * a.valueSize.toNat < 2 ^ 64)
    : a.hostSlots.offset i = a.hostIndex i * a.valueSize.toNat := by
  unfold hostSlots
  dsimp only
  unfold hostIndex at hlt ⊢
  rw [Nat.add_mul] at hlt ⊢
  rw [UInt64.toNat_mul, UInt32.toNat_toUInt64, toNat_entrySize, ← Nat.mul_assoc,
    Nat.mod_eq_of_lt (by omega)]

theorem strided_hostSlots
    : a.hostSlots.Strided a.HostValid a.hostIndex (a.maxEnts.toNat * a.threads) a.valueSize.toNat
        (2 ^ 64) where
  size_eq := fun _ _ => rfl
  len_eq := toNat_totalBufferSize
  index_lt := fun _ hi => hostIndex_lt hi
  index_inj := by
    intro i j hi hj heq
    rcases Grid.pair_inj hi.2 hj.2 heq with ⟨hkey, hpos⟩
    exact Prod.ext (UInt32.toNat_inj.mp hkey) hpos
  index_surj := by
    intro e he
    have hpos : 0 < a.threads := by
      apply Nat.pos_of_ne_zero
      intro hzero
      rw [hzero] at he
      omega
    have hkey : e / a.threads < a.maxEnts.toNat := (Nat.div_lt_iff_lt_mul hpos).mpr he
    have hlt := a.maxEnts.toNat_lt
    have hnat : (UInt32.ofNat (e / a.threads)).toNat = e / a.threads :=
      UInt32.toNat_ofNat_of_lt' (by change _ < 2 ^ 32; omega)
    refine ⟨(.ofNat (e / a.threads), e % a.threads), ⟨?_, Nat.mod_lt _ hpos⟩, ?_⟩
    . rw [UInt32.lt_iff_toNat_lt, hnat]
      exact hkey
    . unfold hostIndex
      rw [hnat]
      exact Nat.div_add_mod' e a.threads
  offset_eq := fun _ _ hlt => offset_hostSlots hlt

-- The slots of the device.

def threadId (a : MapAttr) (l : Launch) (t : Thread) : UInt64 :=
  match a.type with
  | .perGpuTdArray => getGlobalThreadId l t
  | .gpuArray => 0

theorem position_lt (hallows : a.Allows l) (h : l.Runs t) : a.position l t < a.threads := by
  unfold Allows at hallows
  unfold position
  cases htype : a.type with
  | perGpuTdArray =>
    rw [htype] at hallows
    rw [threads_of_perGpuTdArray htype]
    exact Nat.lt_of_lt_of_le (linear_lt h) hallows
  | gpuArray =>
    rw [threads_of_gpuArray htype]
    exact Nat.one_pos

theorem position_ne {i j : UInt32 × Thread} (hi : l.Runs i.2) (hj : l.Runs j.2)
    (hdiffer : a.Differ i j)
    : (i.1, a.position l i.2) ≠ (j.1, a.position l j.2) := by
  intro heq
  rcases Prod.mk.inj heq with ⟨hkey, hpos⟩
  unfold Differ at hdiffer
  unfold position at hpos
  cases htype : a.type with
  | perGpuTdArray =>
    rw [htype] at hdiffer hpos
    exact hdiffer (Prod.ext hkey (linear_inj hi hj hpos))
  | gpuArray =>
    rw [htype] at hdiffer
    exact hdiffer hkey

theorem lookup_eq : bpfHelperExt0001 l t (a.mapBasicInfo gpuBuffer) key
        =
      gpuBuffer + key.toUInt64 * a.getGpuMapMaxThreadCount * (a.mapBasicInfo gpuBuffer).stride
        + a.threadId l t * (a.mapBasicInfo gpuBuffer).stride := by
  have hmapType : (a.mapBasicInfo gpuBuffer).mapType = a.type := rfl
  unfold bpfHelperExt0001 threadId
  rw [hmapType]
  cases htype : a.type with
  | perGpuTdArray => rfl
  | gpuArray =>
    have hcount : a.getGpuMapMaxThreadCount = 1 := by
      unfold getGpuMapMaxThreadCount
      rw [htype]
    dsimp only
    rw [hcount, UInt64.mul_one, UInt64.zero_mul, UInt64.add_zero]
    rfl

theorem update_eq : bpfHelperExt0002 l t (a.mapBasicInfo gpuBuffer) key
        =
      ⟨bpfHelperExt0001 l t (a.mapBasicInfo gpuBuffer) key, simpleMemcpySize a.valueSize.toInt32, 0⟩
    := rfl

theorem toNat_stride (h : a.valueSize.toNat < 2 ^ 31)
    : (a.mapBasicInfo gpuBuffer).stride.toNat = a.valueSize.toNat :=
  SignExtend.toNat_of_lt h

theorem offset_deviceSlots {i : UInt32 × Thread} (h : a.valueSize.toNat < 2 ^ 31)
    : (a.deviceSlots gpuBuffer l).offset i
        =
      (i.1.toNat * a.threads * a.valueSize.toNat
        + (a.threadId l i.2).toNat * a.valueSize.toNat) % 2 ^ 64 := by
  unfold deviceSlots
  dsimp only
  rw [lookup_eq, UInt64.add_assoc, UInt64.add_comm gpuBuffer, UInt64.add_sub_cancel]
  rw [UInt64.toNat_add, UInt64.toNat_mul, UInt64.toNat_mul, UInt64.toNat_mul, Nat.mod_mul_mod,
    ← Nat.add_mod, UInt32.toNat_toUInt64, toNat_stride h]
  rfl

theorem simpleMemcpySize_of_lt (h : a.valueSize.toNat < 2 ^ 31)
    : simpleMemcpySize a.valueSize.toInt32 = a.valueSize.toNat := by
  unfold simpleMemcpySize
  rw [SignExtend.toInt_toInt32_of_lt h, Int.toNat_natCast]

theorem offset_deviceSlots_eq {i : UInt32 × Thread} (hsize : a.valueSize.toNat < 2 ^ 31)
    (hlt : a.maxEnts.toNat * a.threads * a.valueSize.toNat < 2 ^ 64)
    (hid : (a.threadId l i.2).toNat * a.valueSize.toNat
      = a.position l i.2 * a.valueSize.toNat)
    (hvalid : a.HostValid (i.1, a.position l i.2))
    : (a.deviceSlots gpuBuffer l).offset i = a.hostSlots.offset (i.1, a.position l i.2) := by
  have hindex : a.hostIndex (i.1, a.position l i.2) * a.valueSize.toNat < 2 ^ 64 :=
    Nat.lt_of_le_of_lt (Nat.mul_le_mul_right _ (Nat.le_of_lt (hostIndex_lt hvalid))) hlt
  rw [offset_hostSlots hindex, offset_deviceSlots hsize, hid, ← Nat.add_mul]
  exact Nat.mod_eq_of_lt hindex

theorem slotsAgree (hallows : a.Allows l) (hsize : a.valueSize.toNat < 2 ^ 31)
    (hlt : a.maxEnts.toNat * a.threads * a.valueSize.toNat < 2 ^ 64)
    (hid : ∀ t, l.Runs t →
      (a.threadId l t).toNat * a.valueSize.toNat = a.position l t * a.valueSize.toNat)
    : a.SlotsAgree gpuBuffer l := by
  have hvalid : ∀ i, a.Reached l i → a.HostValid (i.1, a.position l i.2) :=
    fun i hi => ⟨hi.1, position_lt hallows hi.2⟩
  have hoffset : ∀ i, a.Reached l i →
      (a.deviceSlots gpuBuffer l).offset i = a.hostSlots.offset (i.1, a.position l i.2) :=
    fun i hi => offset_deviceSlots_eq hsize hlt (hid i.2 hi.2) (hvalid i hi)
  constructor
  . intro i hi
    constructor
    . exact ⟨_, elemLookup_of_lt hi.1, hoffset i hi⟩
    . rw [update_eq, simpleMemcpySize_of_lt hsize]
  . refine (strided_hostSlots.sound hlt).comap (fun i => (i.1, a.position l i.2)) rfl hoffset
      ?_ ?_ ?_
    . intro i _
      exact simpleMemcpySize_of_lt hsize
    . exact hvalid
    . intro i j hi hj hdiffer
      exact position_ne hi.2 hj.2 hdiffer

theorem threadId_mul (hallows : a.Allows l) (h : l.Runs t)
    (hle : a.type = .perGpuTdArray → a.valueSize.toNat = 0 ∨ a.gpuThreadCount.toNat ≤ 2 ^ 31)
    : (a.threadId l t).toNat * a.valueSize.toNat = a.position l t * a.valueSize.toNat := by
  unfold Allows at hallows
  unfold threadId position
  cases htype : a.type with
  | perGpuTdArray =>
    rw [htype] at hallows
    rcases hle htype with hzero | hle
    . rw [hzero, Nat.mul_zero, Nat.mul_zero]
    . dsimp only at hallows ⊢
      rw [toNat_getGlobalThreadId h (by omega)]
  | gpuArray => rfl

def line (a : MapAttr) : Launch :=
  ⟨⟨.ofNat a.threads, 1, 1⟩, ⟨1, 1, 1⟩⟩

def lane (p : ℕ) : Thread := ⟨⟨.ofNat p, 0, 0⟩, ⟨0, 0, 0⟩⟩

theorem threads_lt : a.threads < 2 ^ 32 := by
  cases htype : a.type with
  | perGpuTdArray =>
    rw [threads_of_perGpuTdArray htype]
    exact a.gpuThreadCount.toNat_lt
  | gpuArray =>
    rw [threads_of_gpuArray htype]
    decide

theorem total_line : a.line.total = a.threads := by
  have hnat : (UInt32.ofNat a.threads).toNat = a.threads := UInt32.toNat_ofNat_of_lt' threads_lt
  change 1 * 1 * (1 * 1) * ((UInt32.ofNat a.threads).toNat * 1) = _
  rw [hnat]
  omega

theorem allows_line : a.Allows a.line := by
  unfold Allows
  cases htype : a.type with
  | perGpuTdArray =>
    exact Nat.le_of_eq (total_line.trans (threads_of_perGpuTdArray htype))
  | gpuArray => trivial

variable {p : ℕ}

theorem runs_lane (h : p < a.threads) : a.line.Runs (lane p) := by
  have hthreads := threads_lt (a := a)
  have hone : (0 : UInt32) < 1 := by decide
  refine ⟨⟨?_, hone⟩, ⟨hone, hone⟩, ⟨hone, hone⟩⟩
  change UInt32.ofNat p < UInt32.ofNat a.threads
  rw [UInt32.lt_iff_toNat_lt, UInt32.toNat_ofNat_of_lt' hthreads,
    UInt32.toNat_ofNat_of_lt' (Nat.lt_trans h hthreads)]
  exact h

theorem position_lane (h : p < a.threads) : a.position a.line (lane p) = p := by
  unfold position
  cases htype : a.type with
  | perGpuTdArray =>
    have hp : (UInt32.ofNat p).toNat = p := UInt32.toNat_ofNat_of_lt' (Nat.lt_trans h threads_lt)
    dsimp only
    unfold linear Grid.linear along lane line
    dsimp only
    rw [hp]
    simp
  | gpuArray =>
    rw [threads_of_gpuArray htype] at h
    dsimp only
    omega

theorem not_rejects (h : l.Runs t) : ¬ a.Rejects gpuBuffer l key :=
  fun hrejects => hrejects.update t h rfl

theorem valueSize_lt (h : a.SlotsAgree gpuBuffer l) (hkey : key < a.maxEnts) (ht : l.Runs t)
    : a.valueSize.toNat < 2 ^ 31 := by
  by_contra hge
  have hupdate := (h.reaches (key, t) ⟨hkey, ht⟩).update
  rw [update_eq] at hupdate
  have hsize := congrArg Update.size hupdate
  have hneg := SignExtend.toInt_toInt32_neg (Nat.le_of_not_lt hge)
  change a.valueSize.toInt32.toInt.toNat = a.valueSize.toNat at hsize
  omega

theorem sound_hostSlots (h : a.SlotsAgree gpuBuffer a.line)
    : a.hostSlots.Sound a.HostValid (fun i j => a.Differ (i.1, lane i.2) (j.1, lane j.2)) := by
  have hreached : ∀ i, a.HostValid i → a.Reached a.line (i.1, lane i.2) :=
    fun i hi => ⟨hi.1, runs_lane hi.2⟩
  refine h.sound.comap (fun i => (i.1, lane i.2)) rfl ?_ ?_ ?_ ?_
  . intro i hi
    rcases (h.reaches _ (hreached i hi)).lookup with ⟨r, hr, heq⟩
    rw [elemLookup_of_lt hi.1] at hr
    cases hr
    rw [heq, position_lane hi.2]
    rfl
  . intro i hi
    exact (congrArg Update.size (h.reaches _ (hreached i hi)).update).symm
  . exact hreached
  . exact fun _ _ _ _ hdiffer => hdiffer

def wideLaunch : Launch := ⟨⟨715827883, 1, 1⟩, ⟨3, 1, 1⟩⟩

def lastThread : Thread := ⟨⟨715827882, 0, 0⟩, ⟨2, 0, 0⟩⟩

theorem runs_lastThread : wideLaunch.Runs lastThread := by
  decide

theorem not_slotsAgree_wideLaunch (htype : a.type = .perGpuTdArray) (hkey : 0 < a.maxEnts)
    (hpos : 0 < a.valueSize.toNat)
    : ¬ a.SlotsAgree gpuBuffer wideLaunch := by
  intro h
  have hsize := valueSize_lt h hkey runs_lastThread
  rcases (h.reaches (0, lastThread) ⟨hkey, runs_lastThread⟩).lookup with ⟨r, hr, heq⟩
  rw [elemLookup_of_lt hkey] at hr
  cases hr
  have hid : (a.threadId wideLaunch lastThread).toNat = 2 ^ 64 - 2 ^ 31 := by
    unfold threadId
    rw [htype]
    decide
  have hposition : a.position wideLaunch lastThread = 2 ^ 31 := by
    unfold position
    rw [htype]
    decide
  rw [offset_deviceSlots hsize, hid, hposition] at heq
  simp only [UInt32.toNat_zero, Nat.zero_mul, Nat.zero_add] at heq
  change _ = (0 * a.entrySize).toNat + _ at heq
  rw [UInt64.zero_mul] at heq
  change _ = 0 + _ at heq
  omega

theorem lt_of_handlesKey (h : a.HandlesKey gpuBuffer key) (hpos : 0 < a.threads)
    : key < a.maxEnts := by
  by_contra hnot
  exact not_rejects (runs_lane hpos) ((h a.line allows_line).2 hnot)

theorem handlesKey_iff_of_gpuArray (htype : a.type = .gpuArray)
    : a.HandlesKey gpuBuffer key ↔ (key < a.maxEnts ∧ a.valueSize.toNat < 2 ^ 31) := by
  have hthreads := threads_of_gpuArray htype
  constructor
  . intro h
    have hkey := lt_of_handlesKey h (by omega)
    exact ⟨hkey, valueSize_lt ((h a.line allows_line).1 hkey) hkey (runs_lane (p := 0) (by omega))⟩
  . intro ⟨hkey, hsize⟩ l hallows
    have hlt : a.maxEnts.toNat * a.threads * a.valueSize.toNat < 2 ^ 64 := by
      rw [hthreads, Nat.mul_one]
      change _ < 2 ^ 32 * 2 ^ 32
      exact Nat.mul_lt_mul'' a.maxEnts.toNat_lt a.valueSize.toNat_lt
    refine ⟨fun _ => slotsAgree hallows hsize hlt ?_, fun hnot => absurd hkey hnot⟩
    intro t ht
    apply threadId_mul hallows ht
    intro hother
    rw [htype] at hother
    cases hother

theorem handlesKey_iff_of_perGpuTdArray (htype : a.type = .perGpuTdArray)
    (hpos : 0 < a.gpuThreadCount.toNat)
    : a.HandlesKey gpuBuffer key
        ↔
      key < a.maxEnts
        ∧ (a.valueSize.toNat = 0
            ∨ (a.gpuThreadCount.toNat ≤ 2 ^ 31
                ∧ a.valueSize.toNat < 2 ^ 31
                ∧ a.maxEnts.toNat * a.gpuThreadCount.toNat * a.valueSize.toNat < 2 ^ 64)) := by
  have hthreads := threads_of_perGpuTdArray htype
  constructor
  . intro h
    have hkey := lt_of_handlesKey h (by omega)
    have hagree := (h a.line allows_line).1 hkey
    refine ⟨hkey, ?_⟩
    rcases Nat.eq_zero_or_pos a.valueSize.toNat with hzero | hvalue
    . exact .inl hzero
    refine .inr ⟨?_, valueSize_lt hagree hkey (runs_lane (p := 0) (by omega)), ?_⟩
    . by_contra hgt
      have hallows : a.Allows wideLaunch := by
        unfold Allows
        rw [htype]
        change 2147483649 ≤ _
        omega
      have hzero : 0 < a.maxEnts := UInt32.lt_of_le_of_lt UInt32.zero_le hkey
      exact not_slotsAgree_wideLaunch htype hzero hvalue ((h _ hallows).1 hkey)
    . rw [← hthreads]
      exact strided_hostSlots.lt_of_sound (by decide) (sound_hostSlots hagree)
  . intro ⟨hkey, hfits⟩ l hallows
    refine ⟨fun _ => ?_, fun hnot => absurd hkey hnot⟩
    have hsize : a.valueSize.toNat < 2 ^ 31 := by omega
    have hlt : a.maxEnts.toNat * a.threads * a.valueSize.toNat < 2 ^ 64 := by
      rcases hfits with hzero | ⟨-, -, hlt⟩
      . rw [hzero, Nat.mul_zero]
        decide
      . rw [hthreads]
        exact hlt
    apply slotsAgree hallows hsize hlt
    intro t ht
    apply threadId_mul hallows ht
    intro _
    omega

theorem handlesKey_of_gpuThreadCount_eq_zero (htype : a.type = .perGpuTdArray)
    (hzero : a.gpuThreadCount.toNat = 0)
    : a.HandlesKey gpuBuffer key := by
  intro l hallows
  have hnone : ∀ t, ¬ l.Runs t := by
    intro t ht
    have hlt := position_lt hallows ht
    rw [threads_of_perGpuTdArray htype] at hlt
    omega
  constructor
  . intro _
    constructor
    . exact fun i hi => absurd hi.2 (hnone _)
    . constructor
      . exact fun i hi => absurd hi.2 (hnone _)
      . exact fun i _ hi => absurd hi.2 (hnone _)
  . intro hnot
    exact ⟨⟨_, elemLookup_of_not_lt hnot⟩, fun t ht => absurd ht (hnone t),
      fun t ht => absurd ht (hnone t)⟩

theorem handlesKey_iff (a : MapAttr) (gpuBuffer : UInt64) (key : UInt32)
    : a.HandlesKey gpuBuffer key ↔ a.Addressable key := by
  unfold Addressable
  cases htype : a.type with
  | perGpuTdArray =>
    rcases Nat.eq_zero_or_pos a.gpuThreadCount.toNat with hzero | hpos
    . exact ⟨fun _ => .inl hzero, fun _ => handlesKey_of_gpuThreadCount_eq_zero htype hzero⟩
    . dsimp only
      rw [or_iff_right (Nat.ne_of_gt hpos)]
      exact handlesKey_iff_of_perGpuTdArray htype hpos
  | gpuArray => exact handlesKey_iff_of_gpuArray htype

theorem not_handlesKey_four : (MapAttr.mk .perGpuTdArray 8 4 32).elemLookup 4 = .error .ENOENT
        ∧ (MapAttr.mk .perGpuTdArray 8 4 32).totalBufferSize = 1024
        ∧ bpfHelperExt0002 ⟨⟨1, 1, 1⟩, ⟨32, 1, 1⟩⟩ ⟨⟨0, 0, 0⟩, ⟨0, 0, 0⟩⟩
            ((MapAttr.mk .perGpuTdArray 8 4 32).mapBasicInfo 0x7f0000000000) 4
          = ⟨0x7f0000000000 + 1024, 8, 0⟩
        ∧ ¬ (MapAttr.mk .perGpuTdArray 8 4 32).HandlesKey 0x7f0000000000 4 := by
  refine ⟨by decide, by decide, by decide, ?_⟩
  intro h
  have hrejects := (h ⟨⟨1, 1, 1⟩, ⟨32, 1, 1⟩⟩ (by unfold Allows; decide)).2 (by decide)
  exact hrejects.update ⟨⟨0, 0, 0⟩, ⟨0, 0, 0⟩⟩ (by unfold Launch.Runs; decide) rfl

end MapAttr

end Bpftime.GpuArray
