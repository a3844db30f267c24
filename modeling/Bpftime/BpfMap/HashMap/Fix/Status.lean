import Bpftime.BpfMap.HashMap.Fix.Impl

namespace Bpftime.HashMap

open LinearProbe

variable {p : Params}

namespace BpftimeHashMap

theorem valueOf_copyValue_self {m : BpftimeHashMap p} {key : Key p} {i : Nat}
    (h : m.elemLookup key = some i) (value : Value p)
    : (m.copyValue i value).valueOf key = some value := by
  have hsame : (m.copyValue i value).elemLookup key = some i := by
    rw [elemLookup_eq_some_iff_probe] at h ⊢
    rw [probe_eq] at h ⊢
    rw [keyAt_copyValue]
    exact h
  unfold valueOf
  rw [hsame, getValue_copyValue]
  simp

theorem Sized.valueOf_fill_self {m : BpftimeHashMap p} (hsized : m.Sized) {key : Key p} {i : Nat}
    (h : m.probe key = some (.empty i)) (value : Value p)
    : (m.fill i key value).valueOf key = some value := by
  have hhome := hsized.startIndex_lt key
  have hfound : (m.fill i key value).elemLookup key = some i := by
    rw [elemLookup_eq_some_iff_probe, probe_eq, keyAt_fill_count]
    rw [probe_eq] at h
    rcases probe_empty hhome h with ⟨hi, -, hpath⟩
    -- the scan for the key stops where it stopped before
    apply probe_of_path hhome hi
    . intro j hj
      rw [Function.update_of_ne (hj.ne hhome)]
      exact hpath j hj
    . rw [visit_eq_found_iff]
      simp
  unfold valueOf
  rw [hfound, getValue_fill]
  simp

theorem Sized.valueOf_elemUpdate_self_iff {m : BpftimeHashMap p} (h : m.Sized) (key : Key p)
    (value : Value p)
    : (m.elemUpdate key value).2.valueOf key = some value
        ↔
      m.valueOf key ≠ none ∨ m.count < m.maxElementCount := by
  rw [ne_eq, valueOf_eq_none_iff]
  cases hlookup : m.elemLookup key with
  | some i =>
    rw [elemUpdate_of_found hlookup]
    simp [valueOf_copyValue_self hlookup]
  | none =>
    rcases Nat.lt_or_ge m.count m.maxElementCount with hroom | hfull
    . rcases h.probe_of_room hlookup hroom with ⟨i, hprobe⟩
      rw [elemUpdate_of_room hprobe hroom]
      simp [h.valueOf_fill_self hprobe, hroom]
    . rw [elemUpdate_of_full hlookup hfull]
      rw [valueOf_eq_none_iff.mpr hlookup]
      simp [hfull]

end BpftimeHashMap

namespace FixSizeHashMapImpl

def valueOf (m : FixSizeHashMapImpl p) (key : Key p) : Option (Value p) := m.mapImpl.valueOf key

def Present (m : FixSizeHashMapImpl p) (key : Key p) : Prop := m.valueOf key ≠ none

def Full (m : FixSizeHashMapImpl p) : Prop := m.mapImpl.maxElementCount ≤ m.mapImpl.count

/-- The status tells whether the call took effect. -/
def StatusMeets (m : FixSizeHashMapImpl p) : Op p → Prop
  | .update key value flags =>
    let (status, m') := m.elemUpdate key value flags
    (status = 0 → m'.valueOf key = some value)
      ∧ (flags = BPF_NOEXIST → m.Present key → status ≠ 0)
      ∧ (flags = BPF_EXIST → ¬ m.Present key → status ≠ 0)
      ∧ (¬ m.Present key → m.Full → status ≠ 0)
      ∧ (status ≠ 0 → m' = m)
  | .delete key =>
    let (status, m') := m.elemDelete key
    (status ≠ 0 ↔ ¬ m.Present key) ∧ (status ≠ 0 → m' = m)

/-- The call has no failure to report. -/
def NothingToReport (m : FixSizeHashMapImpl p) : Op p → Prop
  | .update key _ flags =>
    (m.Present key ∨ ¬ m.Full)
      ∧ (flags = BPF_NOEXIST → ¬ m.Present key)
      ∧ (flags = BPF_EXIST → m.Present key)
  | .delete key => m.Present key

theorem Sized.statusMeets_iff {m : FixSizeHashMapImpl p} (h : m.Sized) (op : Op p)
    : m.StatusMeets op ↔ m.NothingToReport op := by
  cases op with
  | update key value flags =>
    have hvalue := h.mapImpl.valueOf_elemUpdate_self_iff key value
    have hroom : ¬ m.Full ↔ m.mapImpl.count < m.mapImpl.maxElementCount := by
      unfold Full
      rw [Nat.not_le]
    unfold StatusMeets NothingToReport
    dsimp only [elemUpdate]
    have hreads : (FixSizeHashMapImpl.valueOf
        { m with mapImpl := (m.mapImpl.elemUpdate key value).2 } key = some value)
          ↔ (m.Present key ∨ ¬ m.Full) := by
      rw [hroom]
      exact hvalue
    rw [hreads]
    constructor
    . rintro ⟨hstored, hnoexist, hexist, -, -⟩
      refine ⟨hstored rfl, ?_, ?_⟩
      . intro hflags hpresent
        exact hnoexist hflags hpresent rfl
      . intro hflags
        by_contra habsent
        exact hexist hflags habsent rfl
    . rintro ⟨hstored, hnoexist, hexist⟩
      refine ⟨fun _ => hstored, ?_, ?_, ?_, ?_⟩
      . intro hflags hpresent
        exact absurd hpresent (hnoexist hflags)
      . intro hflags habsent
        exact absurd (hexist hflags) habsent
      . intro habsent hfull
        rcases hstored with hpresent | hnotfull
        . exact absurd hpresent habsent
        . exact absurd hfull hnotfull
      . intro hne
        exact absurd rfl hne
  | delete key =>
    unfold StatusMeets NothingToReport
    dsimp only [elemDelete]
    simp

theorem statusMeets_run_iff (a : Attr) (ops : List (Op a.params)) (op : Op a.params)
    : (ops.foldl step (construct a.params)).StatusMeets op
        ↔
      (ops.foldl step (construct a.params)).NothingToReport op := by
  apply Sized.statusMeets_iff
  apply Sized.run
  exact sized_construct

theorem not_statusMeets_noexist : let p := Attr.params ⟨2, 1, 1, by decide⟩
      let key : Key p := .replicate 1 0
      let m := (construct p).step (.update key (.replicate 1 7) BPF_ANY)
      let second : Op p := .update key (.replicate 1 9) BPF_NOEXIST
      m.valueOf key = some (.replicate 1 7)
        ∧ (m.elemUpdate key (.replicate 1 9) BPF_NOEXIST).1 = 0
        ∧ (m.step second).valueOf key = some (.replicate 1 9)
        ∧ ¬ m.StatusMeets second := by
  intro p key m second
  have hbefore : m.valueOf key = some (.replicate 1 7) := by decide
  refine ⟨hbefore, rfl, by decide, ?_⟩
  intro h
  have hpresent : m.Present key := by
    unfold Present
    rw [hbefore]
    simp
  exact h.2.1 rfl hpresent rfl

end FixSizeHashMapImpl

end Bpftime.HashMap
