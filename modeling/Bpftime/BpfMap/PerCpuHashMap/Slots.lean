import Bpftime.BpfMap.PerCpuHashMap.Impl
import Mathlib.Algebra.Group.Nat.Defs

namespace Bpftime.PerCpuHashMap

variable {p : Params} {cpu cpu' : UInt32}

namespace Params

def Fits (p : Params) : Prop := p.valueSize.toNat * p.ncpu.toNat < 2 ^ 32

theorem Fits.toNat_totalSize (h : p.Fits)
    : p.totalSize.toNat = p.valueSize.toNat * p.ncpu.toNat := by
  unfold totalSize
  rw [UInt32.toNat_mul]
  exact Nat.mod_eq_of_lt h

theorem slot_le (hcpu : cpu < p.ncpu)
    : cpu.toNat * p.valueSize.toNat + p.valueSize.toNat ≤ p.valueSize.toNat * p.ncpu.toNat := by
  rw [UInt32.lt_iff_toNat_lt] at hcpu
  rw [← Nat.succ_mul, Nat.mul_comm p.valueSize.toNat]
  exact Nat.mul_le_mul_right _ hcpu

theorem Fits.toNat_slotStart (h : p.Fits) (hcpu : cpu < p.ncpu)
    : (p.slotStart cpu).toNat = cpu.toNat * p.valueSize.toNat := by
  have hle := slot_le hcpu
  unfold Fits at h
  unfold slotStart
  rw [UInt32.toNat_mul]
  apply Nat.mod_eq_of_lt
  omega

theorem Fits.slotStart_add_le (h : p.Fits) (hcpu : cpu < p.ncpu)
    : (p.slotStart cpu).toNat + p.valueSize.toNat ≤ p.totalSize.toNat := by
  rw [h.toNat_slotStart hcpu, h.toNat_totalSize]
  exact slot_le hcpu

theorem Fits.slot_le_of_lt (h : p.Fits) (hcpu : cpu < p.ncpu) (hcpu' : cpu' < p.ncpu)
    (hlt : cpu' < cpu)
    : (p.slotStart cpu').toNat + p.valueSize.toNat ≤ (p.slotStart cpu).toNat := by
  rw [UInt32.lt_iff_toNat_lt] at hlt
  rw [h.toNat_slotStart hcpu, h.toNat_slotStart hcpu', ← Nat.succ_mul]
  exact Nat.mul_le_mul_right _ hlt

end Params

namespace FullValue

def slot (v : FullValue p) (cpu : UInt32) : List UInt8 :=
  Bytes.slice v.1 (p.slotStart cpu).toNat p.valueSize.toNat

variable {v v' : FullValue p} {value : Value p}

theorem length_slot (h : p.Fits) (hcpu : cpu < p.ncpu) : (v.slot cpu).length = p.valueSize.toNat := by
  have hle := h.slotStart_add_le hcpu
  have hlen := v.2
  unfold slot Bytes.slice
  rw [List.length_take, List.length_drop]
  omega

theorem copyAt_eq_some (h : v.copyAt cpu value = some v')
    : (p.slotStart cpu).toNat + p.valueSize.toNat ≤ p.totalSize.toNat ∧
        v'.1 = Bytes.overwrite v.1 (p.slotStart cpu).toNat value.toList := by
  unfold copyAt at h
  split at h
  next hle =>
    cases h
    exact ⟨hle, rfl⟩
  next => cases h

theorem slot_copyAt_of_ne (h : p.Fits) (hcpu : cpu < p.ncpu) (hcpu' : cpu' < p.ncpu)
    (hne : cpu' ≠ cpu) (hcopy : v.copyAt cpu value = some v')
    : v'.slot cpu' = v.slot cpu' := by
  have hlen := v.2
  have hle := h.slotStart_add_le hcpu
  unfold slot
  rw [(copyAt_eq_some hcopy).2]
  apply Bytes.slice_overwrite_of_disjoint
  . rw [Vector.length_toList]
    omega
  . rw [Vector.length_toList]
    rcases UInt32.lt_or_lt_of_ne hne with hlt | hlt
    . exact .inl (h.slot_le_of_lt hcpu hcpu' hlt)
    . exact .inr (h.slot_le_of_lt hcpu' hcpu hlt)

theorem fillBefore_eq_some (h : v.fillBefore cpu = some v')
    : (p.slotStart cpu).toNat ≤ p.totalSize.toNat ∧
        v'.1 = Bytes.overwrite v.1 0 (List.replicate (p.slotStart cpu).toNat 0) := by
  unfold fillBefore at h
  split at h
  next hle =>
    cases h
    exact ⟨hle, rfl⟩
  next => cases h

theorem slot_fillBefore_of_lt (h : p.Fits) (hcpu : cpu < p.ncpu) (hcpu' : cpu' < p.ncpu)
    (hlt : cpu' < cpu) (hfill : v.fillBefore cpu = some v')
    : ∀ b ∈ v'.slot cpu', b = 0 := by
  have hle := h.slot_le_of_lt hcpu hcpu' hlt
  have hlen := v.2
  have hfilled := fillBefore_eq_some hfill
  intro b hb
  rcases List.getElem?_of_mem hb with ⟨i, hi⟩
  unfold slot at hi
  rw [Bytes.getElem?_slice, hfilled.2, Bytes.getElem?_overwrite] at hi
  . split at hi
    next hlt' =>
      rw [List.length_replicate, if_pos (by omega), List.getElem?_replicate, if_pos (by omega)] at hi
      cases hi
      rfl
    next => cases hi
  . rw [List.length_replicate]
    omega

theorem slot_fillBefore_of_le (h : p.Fits) (hcpu : cpu < p.ncpu) (hcpu' : cpu' < p.ncpu)
    (hle : cpu ≤ cpu') (hfill : v.fillBefore cpu = some v')
    : v'.slot cpu' = v.slot cpu' := by
  have hlen := v.2
  have hfilled := fillBefore_eq_some hfill
  unfold slot
  rw [hfilled.2]
  apply Bytes.slice_overwrite_of_disjoint
  . rw [List.length_replicate]
    omega
  . right
    rw [List.length_replicate, h.toNat_slotStart hcpu, h.toNat_slotStart hcpu', Nat.zero_add]
    apply Nat.mul_le_mul_right
    exact UInt32.le_iff_toNat_le.mp hle

theorem slot_eq_of_zero (h : p.Fits) (hcpu : cpu < p.ncpu) (hv : ∀ b ∈ v.slot cpu, b = 0)
    (hv' : ∀ b ∈ v'.slot cpu, b = 0)
    : v'.slot cpu = v.slot cpu := by
  rw [List.eq_replicate_iff.mpr ⟨length_slot h hcpu, hv⟩]
  exact List.eq_replicate_iff.mpr ⟨length_slot h hcpu, hv'⟩

theorem fillBefore_iff (h : p.Fits) (hcpu : cpu < p.ncpu) (hfill : v.fillBefore cpu = some v')
    : ((∀ cpu' < p.ncpu, cpu' ≠ cpu → v'.slot cpu' = v.slot cpu') ∧ ∀ b ∈ v'.slot cpu, b = 0)
        ↔
      ∀ cpu' ≤ cpu, ∀ b ∈ v.slot cpu', b = 0 := by
  have hself := slot_fillBefore_of_le h hcpu hcpu (UInt32.le_refl _) hfill
  constructor
  . intro ⟨hothers, hcleared⟩ cpu' hle
    have hcpu' : cpu' < p.ncpu := UInt32.lt_of_le_of_lt hle hcpu
    by_cases heq : cpu' = cpu
    . rw [heq, ← hself]
      exact hcleared
    . rw [← hothers cpu' hcpu' heq]
      exact slot_fillBefore_of_lt h hcpu hcpu' (UInt32.lt_of_le_of_ne hle heq) hfill
  . intro hzero
    constructor
    . intro cpu' hcpu' hne
      rcases UInt32.lt_or_lt_of_ne hne with hlt | hlt
      . apply slot_eq_of_zero h hcpu' (hzero cpu' (UInt32.le_of_lt hlt))
        exact slot_fillBefore_of_lt h hcpu hcpu' hlt hfill
      . exact slot_fillBefore_of_le h hcpu hcpu' (UInt32.le_of_lt hlt) hfill
    . rw [hself]
      exact hzero cpu (UInt32.le_refl _)

end FullValue

namespace PerCpuHashMapImpl

variable {m m' : PerCpuHashMapImpl p} {op : ProgOp p}

def OthersKept (m m' : PerCpuHashMapImpl p) (cpu : UInt32) : Prop :=
  ∀ key full, m.impl.lookup key = some full →
    ∃ full', m'.impl.lookup key = some full' ∧
      ∀ cpu' < p.ncpu, cpu' ≠ cpu → full'.slot cpu' = full.slot cpu'

/-- The slots of the other CPUs are kept, and a delete clears its own. -/
structure Framed (m : PerCpuHashMapImpl p) (cpu : UInt32) (op : ProgOp p) : Prop where
  defined : ∃ m', m.progStep cpu op = some m'
  others : ∀ m', m.progStep cpu op = some m' → m.OthersKept m' cpu
  cleared : ∀ m' key, op = .delete key → m.progStep cpu op = some m' →
    ∀ full, m'.impl.lookup key = some full → ∀ b ∈ full.slot cpu, b = 0

/-- A delete finds only zeros in the slots up to that of its CPU. -/
def ZeroUpTo (m : PerCpuHashMapImpl p) (cpu : UInt32) : ProgOp p → Prop
  | .delete key => ∀ full, m.impl.lookup key = some full → ∀ cpu' ≤ cpu, ∀ b ∈ full.slot cpu', b = 0
  | _ => True

theorem othersKept_refl (m : PerCpuHashMapImpl p) (cpu : UInt32) : m.OthersKept m cpu :=
  fun _ full hfull => ⟨full, hfull, fun _ _ _ => rfl⟩

theorem othersKept_insert_iff {key : Key p} {full' : FullValue p}
    : m.OthersKept ⟨m.impl.insert key full'⟩ cpu
        ↔
      ∀ full, m.impl.lookup key = some full →
        ∀ cpu' < p.ncpu, cpu' ≠ cpu → full'.slot cpu' = full.slot cpu' := by
  have hself : (m.impl.insert key full').lookup key = some full' := AList.lookup_insert _
  constructor
  . intro h full hfull
    rcases h key full hfull with ⟨full₁, hfull₁, hslots⟩
    cases hself.symm.trans hfull₁
    exact hslots
  . intro h key' full hfull
    by_cases heq : key' = key
    . subst heq
      exact ⟨full', hself, h full hfull⟩
    . refine ⟨full, ?_, fun _ _ _ => rfl⟩
      rw [← hfull]
      apply AList.lookup_insert_ne heq

theorem progStep_update (m : PerCpuHashMapImpl p) (cpu : UInt32) (key : Key p) (value : Value p)
    (flags : UInt64)
    : m.progStep cpu (.update key value flags)
        =
      if checkUpdateFlags flags then
        if cpu < p.ncpu then
          (((m.impl.lookup key).getD (valueTemplate p)).copyAt cpu value).map
            fun full => ⟨m.impl.insert key full⟩
        else
          none
      else
        some m := by
  simp only [progStep, elemUpdate]
  cases checkUpdateFlags flags with
  | false => rfl
  | true =>
    simp only [Bool.not_true, Bool.false_eq_true, ↓reduceIte]
    split
    next =>
      cases m.impl.lookup key with
      | none | some full => simp [Function.comp_def]
    next => rfl

theorem progStep_delete_of_some {key : Key p} {full : FullValue p} (hcpu : cpu < p.ncpu)
    (h : m.impl.lookup key = some full)
    : m.progStep cpu (.delete key)
        =
      (full.fillBefore cpu).map fun full => ⟨m.impl.insert key full⟩ := by
  simp only [progStep, elemDelete]
  rw [if_pos hcpu, h]
  simp [Function.comp_def]

theorem progStep_delete_of_none {key : Key p} (hcpu : cpu < p.ncpu) (h : m.impl.lookup key = none)
    : m.progStep cpu (.delete key) = some m := by
  simp only [progStep, elemDelete]
  rw [if_pos hcpu, h]
  rfl

theorem progStep_lookup (key : Option (Key p)) (h : p.Fits) (hcpu : cpu < p.ncpu)
    : m.progStep cpu (.lookup key) = some m := by
  have hle : p.slotStart cpu ≤ p.totalSize := by
    rw [UInt32.le_iff_toNat_le]
    have := h.slotStart_add_le hcpu
    omega
  simp only [progStep, elemLookup]
  cases key with
  | none => rfl
  | some key =>
    simp only [hcpu, hle, ↓reduceIte]
    cases m.impl.lookup key <;> rfl

theorem framed_iff_of_progStep (hstep : m.progStep cpu op = some m')
    : m.Framed cpu op
        ↔
      m.OthersKept m' cpu ∧ ∀ key, op = .delete key →
        ∀ full, m'.impl.lookup key = some full → ∀ b ∈ full.slot cpu, b = 0 := by
  constructor
  . intro h
    exact ⟨h.others m' hstep, fun key hdel => h.cleared m' key hdel hstep⟩
  . intro ⟨hothers, hcleared⟩
    refine ⟨⟨m', hstep⟩, ?_, ?_⟩
    . intro m'' hm''
      cases hstep.symm.trans hm''
      exact hothers
    . intro m'' key hdel hm''
      cases hstep.symm.trans hm''
      exact hcleared key hdel

theorem framed_update (h : p.Fits) (hcpu : cpu < p.ncpu) (key : Key p) (value : Value p)
    (flags : UInt64)
    : m.Framed cpu (.update key value flags) := by
  have hstep := m.progStep_update cpu key value flags
  cases hflags : checkUpdateFlags flags with
  | false =>
    rw [hflags] at hstep
    apply (framed_iff_of_progStep hstep).mpr
    exact ⟨m.othersKept_refl cpu, by simp⟩
  | true =>
    rw [hflags, if_pos rfl, if_pos hcpu] at hstep
    have hle := h.slotStart_add_le hcpu
    rcases hcopy : ((m.impl.lookup key).getD (valueTemplate p)).copyAt cpu value with _ | full'
    . unfold FullValue.copyAt at hcopy
      rw [dif_pos hle] at hcopy
      cases hcopy
    . rw [hcopy, Option.map_some] at hstep
      rw [framed_iff_of_progStep hstep, othersKept_insert_iff]
      refine ⟨?_, by simp⟩
      intro full hfull cpu' hcpu' hne
      rw [hfull, Option.getD_some] at hcopy
      exact FullValue.slot_copyAt_of_ne h hcpu hcpu' hne hcopy

theorem framed_delete_iff (h : p.Fits) (hcpu : cpu < p.ncpu) (key : Key p)
    : m.Framed cpu (.delete key) ↔ m.ZeroUpTo cpu (.delete key) := by
  cases hfull : m.impl.lookup key with
  | none =>
    rw [framed_iff_of_progStep (progStep_delete_of_none hcpu hfull)]
    apply iff_of_true
    . refine ⟨m.othersKept_refl cpu, ?_⟩
      rintro key' ⟨⟩
      simp [hfull]
    . simp [ZeroUpTo, hfull]
  | some full =>
    have hle := h.slotStart_add_le hcpu
    rcases hfill : full.fillBefore cpu with _ | full'
    . unfold FullValue.fillBefore at hfill
      rw [dif_pos (by omega)] at hfill
      cases hfill
    . have hstep := progStep_delete_of_some hcpu hfull
      rw [hfill, Option.map_some] at hstep
      rw [framed_iff_of_progStep hstep, othersKept_insert_iff]
      simp only [ZeroUpTo, hfull, AList.lookup_insert, ProgOp.delete.injEq, Option.some.injEq,
        forall_eq']
      exact FullValue.fillBefore_iff h hcpu hfill

theorem framed_iff_zeroUpTo (h : p.Fits) (hcpu : cpu < p.ncpu) (op : ProgOp p)
    : m.Framed cpu op ↔ m.ZeroUpTo cpu op := by
  cases op with
  | lookup key =>
    rw [framed_iff_of_progStep (progStep_lookup key h hcpu)]
    exact iff_of_true ⟨m.othersKept_refl cpu, by simp⟩ trivial
  | update key value flags => exact iff_of_true (framed_update h hcpu key value flags) trivial
  | delete key => exact framed_delete_iff h hcpu key

theorem exists_not_framed (h : ¬ p.Fits) (m : PerCpuHashMapImpl p)
    : ∃ cpu < p.ncpu, ∀ key value flags, checkUpdateFlags flags = true →
        ¬ m.Framed cpu (.update key value flags) := by
  have hbig : 2 ^ 32 ≤ p.valueSize.toNat * p.ncpu.toNat := Nat.le_of_not_lt h
  have hpos : 0 < p.valueSize.toNat := by
    apply Nat.pos_of_ne_zero
    intro hzero
    rw [hzero] at hbig
    omega
  -- the last CPU whose place starts below `2 ^ 32`
  generalize hlast : (2 ^ 32 - 1) / p.valueSize.toNat = last
  have hmul : last * p.valueSize.toNat ≤ 2 ^ 32 - 1 := by
    rw [← hlast]
    exact Nat.div_mul_le_self _ _
  have hnext : 2 ^ 32 - 1 < last * p.valueSize.toNat + p.valueSize.toNat := by
    rw [← hlast]
    exact Nat.lt_div_mul_add hpos
  have hlt : last < p.ncpu.toNat := by
    apply Nat.lt_of_not_le
    intro hge
    have := Nat.mul_le_mul_left p.valueSize.toNat hge
    rw [Nat.mul_comm p.valueSize.toNat last] at this
    omega
  have hword := p.ncpu.toNat_lt
  have hcpu : (UInt32.ofNat last).toNat = last := by
    rw [UInt32.toNat_ofNat']
    apply Nat.mod_eq_of_lt
    omega
  have hstart : (p.slotStart (UInt32.ofNat last)).toNat = last * p.valueSize.toNat := by
    unfold Params.slotStart
    rw [UInt32.toNat_mul, hcpu]
    apply Nat.mod_eq_of_lt
    omega
  refine ⟨UInt32.ofNat last, ?_, ?_⟩
  . rw [UInt32.lt_iff_toNat_lt, hcpu]
    exact hlt
  . intro key value flags hflags hframed
    rcases hframed.defined with ⟨m', hm'⟩
    have htotal := p.totalSize.toNat_lt
    rw [progStep_update, if_pos hflags] at hm'
    unfold FullValue.copyAt at hm'
    rw [dif_neg (by omega)] at hm'
    split at hm'
    next => cases hm'
    next => cases hm'

theorem framed_iff (p : Params) (m : PerCpuHashMapImpl p)
    : (p.Fits → ∀ cpu < p.ncpu, ∀ op, m.Framed cpu op ↔ m.ZeroUpTo cpu op)
      ∧ (¬ p.Fits → ∃ cpu < p.ncpu, ∀ key value flags, checkUpdateFlags flags = true →
          ¬ m.Framed cpu (.update key value flags)) :=
  ⟨fun h _ hcpu op => framed_iff_zeroUpTo h hcpu op, fun h => exists_not_framed h m⟩

def twoCpus : Params := ⟨1, 1, 2, by decide, 4⟩

def oneKey : PerCpuHashMapImpl twoCpus :=
  ⟨(∅ : AList fun _ : Key twoCpus => FullValue twoCpus).insert #v[1] ⟨[5, 6], rfl⟩⟩

theorem framed_iff_oneKey_update : oneKey.Framed 1 (.update #v[1] #v[7] BPF_ANY) :=
  ((framed_iff twoCpus oneKey).1 (by unfold Params.Fits; decide) 1 (by decide) _).mpr trivial

theorem not_framed_oneKey_delete : ¬ oneKey.Framed 1 (.delete #v[1])
      ∧ ∃ m', oneKey.progStep 1 (.delete #v[1]) = some m' ∧ ¬ oneKey.OthersKept m' 1 := by
  have hstep : oneKey.progStep 1 (.delete #v[1])
      = some ⟨oneKey.impl.insert #v[1] ⟨[0, 6], rfl⟩⟩ := rfl
  constructor
  . intro h
    have hzero := h.cleared _ #v[1] rfl hstep ⟨[0, 6], rfl⟩ rfl 6 (by decide)
    exact absurd hzero (by decide)
  . refine ⟨_, hstep, ?_⟩
    intro h
    rcases h #v[1] ⟨[5, 6], rfl⟩ rfl with ⟨full, hfull, hslots⟩
    cases hfull
    exact absurd (hslots 0 (by decide) (by decide)) (by decide)

end PerCpuHashMapImpl

end Bpftime.PerCpuHashMap
