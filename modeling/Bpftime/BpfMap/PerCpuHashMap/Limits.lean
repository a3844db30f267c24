import Bpftime.BpfMap.PerCpuHashMap.Slots
import Bpftime.Data.AssocSize
import Bpftime.Data.Run

/-!
This module contains when an operation respects `max_entries` and the flags of an update. The calls
of programs check neither, those from user space compare the whole word of the flags.
-/

namespace Bpftime.PerCpuHashMap.PerCpuHashMapImpl

variable {p : Params} {m m' : PerCpuHashMapImpl p} {key : Key p} {full : FullValue p}

theorem size_insert_of_some (h : m.impl.lookup key = some full) (full' : FullValue p)
    : size ⟨m.impl.insert key full'⟩ = m.size :=
  AssocSize.length_keys_insert_of_some h full'

theorem size_insert_of_none (h : m.impl.lookup key = none) (full' : FullValue p)
    : size ⟨m.impl.insert key full'⟩ = m.size + 1 :=
  AssocSize.length_keys_insert_of_none h full'

theorem size_erase_le (m : PerCpuHashMapImpl p) (key : Key p) : size ⟨m.impl.erase key⟩ ≤ m.size :=
  AssocSize.length_keys_erase_le m.impl key

/-- The high 32 bits of the flags are for custom operations. -/
def baseFlags (flags : UInt64) : UInt64 := flags &&& 0xFFFFFFFF

def updated : Op p → Option (Key p × UInt64)
  | .prog _ (.update key _ flags) => some (key, baseFlags flags)
  | .updateUserspace key _ flags => some (key, baseFlags flags)
  | _ => none

/-- The operation is defined, keeps the number of keys below `max_entries`, and keeps what the flags
of an update say it keeps. -/
structure Respects (m : PerCpuHashMapImpl p) (op : Op p) : Prop where
  defined : ∃ m', m.step op = some m'
  size_le : ∀ m', m.step op = some m' → m'.size ≤ p.maxEntries.toNat
  noexist : ∀ m' key, m.step op = some m' → updated op = some (key, BPF_NOEXIST) →
    ∀ full, m.impl.lookup key = some full → m'.impl.lookup key = some full
  exist : ∀ m' key, m.step op = some m' → updated op = some (key, BPF_EXIST) →
    m.impl.lookup key = none → m'.impl.lookup key = none

structure Admits (m : PerCpuHashMapImpl p) (cpu : UInt32) (key : Key p) (value : Value p)
    (flags : UInt64) : Prop where
  cpu_lt : cpu < p.ncpu
  place : (p.slotStart cpu).toNat + p.valueSize.toNat ≤ p.totalSize.toNat
  -- writing the value that is there already does not modify the key
  present : ∀ full, m.impl.lookup key = some full → baseFlags flags = BPF_NOEXIST →
    full.slot cpu = value.toList
  absent : m.impl.lookup key = none → baseFlags flags ≠ BPF_EXIST ∧ m.size < p.maxEntries.toNat

structure AdmitsUserspace (m : PerCpuHashMapImpl p) (key : Key p) (value : FullValue p)
    (flags : UInt64) : Prop where
  present : ∀ full, m.impl.lookup key = some full → baseFlags flags = BPF_NOEXIST →
    flags = BPF_NOEXIST ∨ value = full
  absent : m.impl.lookup key = none → baseFlags flags = BPF_EXIST →
    flags = BPF_EXIST ∨ m.size = p.maxEntries.toNat

def Allowed (m : PerCpuHashMapImpl p) : Op p → Prop
  | .prog cpu (.lookup (some key)) =>
    cpu < p.ncpu ∧ ((m.impl.lookup key).isSome → p.slotStart cpu ≤ p.totalSize)
  | .prog cpu (.update key value flags) =>
    checkUpdateFlags flags = true → m.Admits cpu key value flags
  | .prog cpu (.delete key) =>
    cpu < p.ncpu ∧ ((m.impl.lookup key).isSome → p.slotStart cpu ≤ p.totalSize)
  | .updateUserspace key value flags => m.AdmitsUserspace key value flags
  | _ => True

theorem respects_iff_of_step {op : Op p} (hstep : m.step op = some m') : m.Respects op
        ↔
      m'.size ≤ p.maxEntries.toNat
        ∧ (∀ key, updated op = some (key, BPF_NOEXIST) →
          ∀ full, m.impl.lookup key = some full → m'.impl.lookup key = some full)
        ∧ (∀ key, updated op = some (key, BPF_EXIST) →
          m.impl.lookup key = none → m'.impl.lookup key = none) := by
  constructor
  . intro h
    exact ⟨h.size_le m' hstep, fun key => h.noexist m' key hstep, fun key => h.exist m' key hstep⟩
  . rintro ⟨hsize, hnoexist, hexist⟩
    have heq {m₁ : PerCpuHashMapImpl p} (hm₁ : m.step op = some m₁) : m₁ = m' := by
      rw [hstep] at hm₁
      exact (Option.some.inj hm₁).symm
    constructor
    . exact ⟨m', hstep⟩
    . intro m₁ hm₁
      rw [heq hm₁]
      exact hsize
    . intro m₁ key hm₁
      rw [heq hm₁]
      exact hnoexist key
    . intro m₁ key hm₁
      rw [heq hm₁]
      exact hexist key

theorem respects_of_step {op : Op p} (h : m.size ≤ p.maxEntries.toNat) (hstep : m.step op = some m)
    : m.Respects op :=
  (respects_iff_of_step hstep).mpr ⟨h, fun _ _ _ hfull => hfull, fun _ _ hnone => hnone⟩

theorem not_respects_of_none {op : Op p} (h : m.step op = none) : ¬ m.Respects op := by
  intro hres
  rcases hres.defined with ⟨m', hm'⟩
  rw [h] at hm'
  cases hm'

theorem copyAt_eq_self_iff {value : Value p} {full full' : FullValue p} {cpu : UInt32}
    (h : full.copyAt cpu value = some full')
    : full' = full ↔ full.slot cpu = value.toList := by
  rcases FullValue.copyAt_eq_some h with ⟨hle, heq⟩
  have hlen := full.2
  rw [← Subtype.val_inj, heq]
  unfold FullValue.slot
  constructor
  . intro hself
    rw [← hself]
    have hslice := @Bytes.slice_overwrite_self _ full.1 (p.slotStart cpu).toNat value.toList (by omega)
    rw [Vector.length_toList] at hslice
    exact hslice
  . intro hslot
    rw [← hslot]
    apply Bytes.overwrite_slice
    omega

theorem respects_insert_iff {op : Op p} {flags : UInt64} {full' : FullValue p}
    (h : m.size ≤ p.maxEntries.toNat) (hop : updated op = some (key, flags))
    (hstep : m.step op = some ⟨m.impl.insert key full'⟩)
    : m.Respects op
        ↔
      (∀ full, m.impl.lookup key = some full → flags = BPF_NOEXIST → full' = full)
        ∧ (m.impl.lookup key = none → flags ≠ BPF_EXIST ∧ m.size < p.maxEntries.toNat) := by
  have hself : (m.impl.insert key full').lookup key = some full' := AList.lookup_insert _
  rw [respects_iff_of_step hstep, hop]
  constructor
  . rintro ⟨hsize, hnoexist, hexist⟩
    constructor
    . intro full hfull hflags
      have hkept := hnoexist key (by rw [hflags]) full hfull
      rw [hself] at hkept
      exact Option.some.inj hkept
    . intro hnone
      constructor
      . intro hflags
        have hkept := hexist key (by rw [hflags]) hnone
        rw [hself] at hkept
        cases hkept
      . rw [size_insert_of_none hnone] at hsize
        exact hsize
  . rintro ⟨hpresent, habsent⟩
    refine ⟨?_, ?_, ?_⟩
    . cases hlookup : m.impl.lookup key with
      | none =>
        rw [size_insert_of_none hlookup]
        exact (habsent hlookup).2
      | some full =>
        rw [size_insert_of_some hlookup]
        exact h
    . intro key' hop' full hfull
      cases hop'
      rw [hself, hpresent full hfull rfl]
    . intro key' hop' hnone
      cases hop'
      exact absurd rfl (habsent hnone).1

theorem respects_update_iff (h : m.size ≤ p.maxEntries.toNat) (cpu : UInt32) (key : Key p)
    (value : Value p) (flags : UInt64)
    : m.Respects (.prog cpu (.update key value flags))
        ↔
      m.Allowed (.prog cpu (.update key value flags)) := by
  have hstep : m.step (.prog cpu (.update key value flags)) = _ := m.progStep_update cpu key value flags
  simp only [Allowed]
  cases hflags : checkUpdateFlags flags with
  | false =>
    rw [hflags] at hstep
    apply iff_of_true
    . exact respects_of_step h hstep
    . simp
  | true =>
    rw [hflags, if_pos rfl] at hstep
    simp only [forall_const]
    by_cases hcpu : cpu < p.ncpu
    . rw [if_pos hcpu] at hstep
      rcases hcopy : ((m.impl.lookup key).getD (valueTemplate p)).copyAt cpu value with _ | full'
      . rw [hcopy] at hstep
        apply iff_of_false
        . exact not_respects_of_none hstep
        . intro hadmits
          unfold FullValue.copyAt at hcopy
          rw [dif_pos hadmits.place] at hcopy
          cases hcopy
      . rw [hcopy, Option.map_some] at hstep
        rw [respects_insert_iff h rfl hstep]
        have hpresent (full : FullValue p) (hfull : m.impl.lookup key = some full)
            : full' = full ↔ full.slot cpu = value.toList := by
          rw [hfull, Option.getD_some] at hcopy
          exact copyAt_eq_self_iff hcopy
        constructor
        . intro hrules
          constructor
          . exact hcpu
          . exact (FullValue.copyAt_eq_some hcopy).1
          . intro full hfull hnoexist
            exact (hpresent full hfull).mp (hrules.1 full hfull hnoexist)
          . exact hrules.2
        . intro hadmits
          constructor
          . intro full hfull hnoexist
            exact (hpresent full hfull).mpr (hadmits.present full hfull hnoexist)
          . exact hadmits.absent
    . rw [if_neg hcpu] at hstep
      apply iff_of_false
      . exact not_respects_of_none hstep
      . intro hadmits
        exact hcpu hadmits.cpu_lt

theorem respects_of_not_updated {op : Op p} (hop : updated op = none)
    (hstep : m.step op = some m') (hsize : m'.size ≤ p.maxEntries.toNat)
    : m.Respects op := by
  rw [respects_iff_of_step hstep, hop]
  refine ⟨hsize, ?_, ?_⟩
  . intro _ hop'
    cases hop'
  . intro _ hop'
    cases hop'

theorem respects_lookup_iff (h : m.size ≤ p.maxEntries.toNat) (cpu : UInt32) (key : Option (Key p))
    : m.Respects (.prog cpu (.lookup key)) ↔ m.Allowed (.prog cpu (.lookup key)) := by
  cases key with
  | none =>
    apply iff_of_true _ trivial
    exact respects_of_step h rfl
  | some key =>
    have hstep : m.step (.prog cpu (.lookup (some key)))
        = if cpu < p.ncpu ∧ ((m.impl.lookup key).isSome → p.slotStart cpu ≤ p.totalSize) then some m
          else none := by
      simp only [step, progStep, elemLookup]
      by_cases hcpu : cpu < p.ncpu
      . cases m.impl.lookup key with
        | none => simp [hcpu]
        | some full =>
          by_cases hle : p.slotStart cpu ≤ p.totalSize <;> simp [hcpu, hle]
      . simp [hcpu]
    simp only [Allowed]
    split at hstep
    next hallowed => exact iff_of_true (respects_of_step h hstep) hallowed
    next hnot => exact iff_of_false (not_respects_of_none hstep) hnot

theorem respects_delete_iff (h : m.size ≤ p.maxEntries.toNat) (cpu : UInt32) (key : Key p)
    : m.Respects (.prog cpu (.delete key)) ↔ m.Allowed (.prog cpu (.delete key)) := by
  simp only [Allowed]
  by_cases hcpu : cpu < p.ncpu
  . cases hlookup : m.impl.lookup key with
    | none =>
      apply iff_of_true
      . exact respects_of_step h (progStep_delete_of_none hcpu hlookup)
      . simp [hcpu]
    | some full =>
      have hstep : m.step (.prog cpu (.delete key)) = _ := progStep_delete_of_some hcpu hlookup
      unfold FullValue.fillBefore at hstep
      by_cases hle : p.slotStart cpu ≤ p.totalSize
      . apply iff_of_true
        . rw [dif_pos (UInt32.le_iff_toNat_le.mp hle), Option.map_some] at hstep
          apply respects_of_not_updated rfl hstep
          rw [size_insert_of_some hlookup]
          exact h
        . simp [hcpu, hle]
      . apply iff_of_false
        . rw [dif_neg (fun hle' => hle (UInt32.le_iff_toNat_le.mpr hle'))] at hstep
          exact not_respects_of_none hstep
        . simp [hle]
  . apply iff_of_false
    . apply not_respects_of_none
      simp only [step, progStep, elemDelete]
      rw [if_neg hcpu]
      rfl
    . simp [hcpu]

theorem admitsUserspace_of_not_checkUpdateFlags {value : FullValue p} {flags : UInt64}
    (h : checkUpdateFlags flags = false) : m.AdmitsUserspace key value flags := by
  simp only [checkUpdateFlags, Bool.or_eq_false_iff, beq_eq_false_iff_ne] at h
  constructor
  . intro full _ hbase
    exact absurd hbase h.1.2
  . intro _ hbase
    exact absurd hbase h.2

theorem respects_updateUserspace_iff (h : m.size ≤ p.maxEntries.toNat) (key : Key p)
    (value : FullValue p) (flags : UInt64)
    : m.Respects (.updateUserspace key value flags) ↔ m.AdmitsUserspace key value flags := by
  have hstep : m.step (.updateUserspace key value flags)
      = some (m.elemUpdateUserspace key value flags).2 := rfl
  unfold elemUpdateUserspace at hstep
  split at hstep
  next hcheck =>
    apply iff_of_true (respects_of_step h hstep)
    exact admitsUserspace_of_not_checkUpdateFlags (Bool.not_eq_true' _ ▸ hcheck)
  next =>
    dsimp only at hstep
    split at hstep
    next hnoexist =>
      apply iff_of_true (respects_of_step h hstep)
      exact ⟨fun _ _ _ => .inl hnoexist.1, fun hnone => by simp [hnone] at hnoexist⟩
    next hnoexist =>
      split at hstep
      next hexist =>
        apply iff_of_true (respects_of_step h hstep)
        exact ⟨fun _ hfull => by simp [hfull] at hexist, fun _ _ => .inl hexist.1⟩
      next hexist =>
        split at hstep
        next hfull =>
          apply iff_of_true (respects_of_step h hstep)
          exact ⟨fun _ hsome => by simp [hsome] at hfull, fun _ _ => .inr hfull.2⟩
        next hfull =>
          rw [respects_insert_iff h rfl hstep]
          constructor
          . rintro ⟨hpresent, habsent⟩
            constructor
            . intro full hlookup hbase
              exact .inr (hpresent full hlookup hbase)
            . intro hlookup hbase
              exact absurd hbase (habsent hlookup).1
          . intro hadmits
            constructor
            . intro full hlookup hbase
              apply (hadmits.present full hlookup hbase).resolve_left
              intro hflags
              exact hnoexist ⟨hflags, by rw [hlookup]; rfl⟩
            . intro hlookup
              rw [hlookup] at hexist hfull
              have hroom : m.size ≠ p.maxEntries.toNat := fun heq => hfull ⟨rfl, heq⟩
              refine ⟨?_, Nat.lt_of_le_of_ne h hroom⟩
              intro hbase
              rcases hadmits.absent hlookup hbase with hflags | heq
              . exact hexist ⟨hflags, rfl⟩
              . exact hroom heq

theorem size_deleteUserspace_le (m : PerCpuHashMapImpl p) (key : Key p)
    : (m.elemDeleteUserspace key).2.size ≤ m.size := by
  unfold elemDeleteUserspace
  split
  next => exact Nat.le_refl _
  next => exact size_erase_le m key

theorem size_lookupAndDeleteUserspace_le (m : PerCpuHashMapImpl p) (key : Key p)
    : (m.lookupAndDeleteUserspace key).2.size ≤ m.size := by
  unfold lookupAndDeleteUserspace
  split
  next => exact Nat.le_refl _
  next => exact size_erase_le m key

theorem lookupUserspace_snd (m : PerCpuHashMapImpl p) (key : Option (Key p))
    : (m.elemLookupUserspace key).2 = m := by
  unfold elemLookupUserspace
  split
  next => rfl
  next =>
    split <;> rfl

theorem respects_iff (h : m.size ≤ p.maxEntries.toNat) (op : Op p) : m.Respects op ↔ m.Allowed op := by
  cases op with
  | prog cpu op =>
    cases op with
    | lookup key => exact respects_lookup_iff h cpu key
    | update key value flags => exact respects_update_iff h cpu key value flags
    | delete key => exact respects_delete_iff h cpu key
  | lookupUserspace key =>
    apply iff_of_true _ trivial
    apply respects_of_step h
    simp only [step]
    rw [lookupUserspace_snd]
  | updateUserspace key value flags => exact respects_updateUserspace_iff h key value flags
  | deleteUserspace key =>
    apply iff_of_true _ trivial
    apply respects_of_not_updated rfl rfl
    exact Nat.le_trans (m.size_deleteUserspace_le key) h
  | lookupAndDeleteUserspace key =>
    apply iff_of_true _ trivial
    apply respects_of_not_updated rfl rfl
    exact Nat.le_trans (m.size_lookupAndDeleteUserspace_le key) h

theorem respects_run_iff (p : Params) (ops : List (Op p))
    : Run.AlongDefined step Respects (construct p) ops
        ↔
      Run.AlongDefined step Allowed (construct p) ops := by
  apply Run.alongDefined_iff_of_invariant (fun m => m.size ≤ p.maxEntries.toNat)
  . intro m op m' h hallowed hstep
    exact ((respects_iff h op).mpr hallowed).size_le m' hstep
  . intro m op h
    exact respects_iff h op
  . exact Nat.zero_le _

def oneEntry : Params := ⟨1, 1, 1, by decide, 1⟩

theorem not_respects_oneEntry : ¬ Run.AlongDefined step Respects (construct oneEntry)
          [.prog 0 (.update #v[1] #v[5] BPF_ANY), .prog 0 (.update #v[2] #v[5] BPF_ANY)]
      ∧ ¬ Run.AlongDefined step Respects (construct oneEntry)
          [.prog 0 (.update #v[1] #v[5] BPF_ANY), .prog 0 (.update #v[1] #v[6] BPF_NOEXIST)]
      ∧ ¬ Run.AlongDefined step Respects (construct oneEntry)
          [.prog 0 (.update #v[1] #v[5] BPF_EXIST)]
      ∧ ¬ Run.AlongDefined step Respects (construct oneEntry)
          [.updateUserspace #v[1] ⟨[5], rfl⟩ BPF_ANY,
            .updateUserspace #v[1] ⟨[6], rfl⟩ 0x100000001] := by
  refine ⟨?_, ?_, ?_, ?_⟩
  . intro h
    have hsize := (h.2 _ rfl).1.size_le _ rfl
    exact absurd hsize (by decide)
  . intro h
    have hkept := (h.2 _ rfl).1.noexist _ #v[1] rfl rfl ⟨[5], rfl⟩ rfl
    exact absurd hkept (by decide)
  . intro h
    have hnone := h.1.exist _ #v[1] rfl rfl rfl
    exact absurd hnone (by decide)
  . intro h
    have hkept := (h.2 _ rfl).1.noexist _ #v[1] rfl rfl ⟨[5], rfl⟩ rfl
    exact absurd hkept (by decide)

end Bpftime.PerCpuHashMap.PerCpuHashMapImpl
