import Bpftime.BpfMap.HashMap.Lemmas.Prime

namespace Bpftime.HashMap

open LinearProbe

variable {p : Params}

theorem Params.bufferSize_eq (p : Params)
    : p.bufferSize = nextPrime p.numBuckets * p.elemSize :=
  Nat.mod_eq_of_lt p.fits

theorem Params.getElemOffset_eq {i : Nat} (h : i ≤ nextPrime p.numBuckets)
    : p.getElemOffset i = i * p.elemSize :=
  Nat.mod_eq_of_lt (Nat.lt_of_le_of_lt (Nat.mul_le_mul_right _ h) p.fits)

theorem Params.inside {i : Nat} (h : i < nextPrime p.numBuckets) : p.Inside i := by
  unfold Sizes.Inside
  rw [p.bufferSize_eq, getElemOffset_eq (Nat.le_of_lt h), ← Nat.succ_mul]
  exact Nat.mul_le_mul_right _ h

namespace BpftimeHashMap

def keyAt (m : BpftimeHashMap p) (index : Nat) : Option (Key p) :=
  if m.isEmpty index then none else some (m.getKey index)

theorem probe_eq (m : BpftimeHashMap p) (key : Key p)
    : m.probe key = LinearProbe.probe m.numBuckets m.startIndex m.keyAt key := by
  have hbody : probe.body m key = visit m.keyAt key := by
    funext index
    unfold probe.body visit keyAt
    cases m.isEmpty index with
    | true => rfl
    | false => rfl
  unfold BpftimeHashMap.probe LinearProbe.probe
  rw [hbody]

@[simp]
theorem modifyElem_dataBuffer (m : BpftimeHashMap p) (index : Nat) (f : Elem p → Elem p)
    : (m.modifyElem index f).dataBuffer
        =
      Function.update m.dataBuffer index (f (m.dataBuffer index)) := rfl

theorem keyAt_modifyElem (m : BpftimeHashMap p) (index : Nat) (f : Elem p → Elem p)
    : (m.modifyElem index f).keyAt
        =
      Function.update m.keyAt index
        (if (f (m.dataBuffer index)).filled then some (f (m.dataBuffer index)).key else none) := by
  funext i
  unfold keyAt isEmpty getKey
  rw [modifyElem_dataBuffer]
  by_cases hi : i = index
  . subst hi
    cases hf : (f (m.dataBuffer i)).filled with
    | true => simp [hf]
    | false => simp [hf]
  . simp only [Function.update_of_ne hi]

theorem keyAt_setEmpty (m : BpftimeHashMap p) (index : Nat)
    : (m.setEmpty index).keyAt = Function.update m.keyAt index none := by
  unfold setEmpty
  rw [keyAt_modifyElem]
  rfl

theorem keyAt_copyValue (m : BpftimeHashMap p) (index : Nat) (value : Value p)
    : (m.copyValue index value).keyAt = m.keyAt := by
  unfold copyValue
  rw [keyAt_modifyElem]
  rw [Function.update_eq_self_iff]
  unfold keyAt isEmpty getKey
  cases (m.dataBuffer index).filled with
  | true => rfl
  | false => rfl

theorem keyAt_fill (m : BpftimeHashMap p) (index : Nat) (key : Key p) (value : Value p)
    : (((m.copyKey index key).copyValue index value).setFilled index).keyAt
        =
      Function.update m.keyAt index (some key) := by
  unfold setFilled
  rw [keyAt_modifyElem, keyAt_copyValue]
  unfold copyKey
  rw [keyAt_modifyElem, Function.update_idem]
  simp [copyValue]

theorem getValue_setEmpty (m : BpftimeHashMap p) (index i : Nat)
    : (m.setEmpty index).getValue i = m.getValue i := by
  unfold setEmpty getValue
  rw [modifyElem_dataBuffer]
  by_cases hi : i = index
  . simp [hi]
  . rw [Function.update_of_ne hi]

structure Ok (m : BpftimeHashMap p) : Prop where
  pos : 0 < m.numBuckets
  table : LinearProbe.Ok m.numBuckets m.startIndex m.keyAt

variable {m : BpftimeHashMap p} {key : Key p} {i : Nat}

theorem startIndex_lt (hok : m.Ok) (key : Key p) : m.startIndex key < m.numBuckets := by
  apply Nat.mod_lt
  exact hok.pos

theorem startIndex_congr {m' : BpftimeHashMap p} (h : m'.numBuckets = m.numBuckets)
    : m'.startIndex = m.startIndex := by
  funext key
  unfold startIndex
  rw [h]

theorem Ok.of_keyAt {m' : BpftimeHashMap p} (hok : m.Ok) (h : m'.numBuckets = m.numBuckets)
    (htable : LinearProbe.Ok m.numBuckets m.startIndex m'.keyAt)
    : m'.Ok := by
  constructor
  . rw [h]
    exact hok.pos
  . rw [startIndex_congr h, h]
    exact htable

theorem ok_construct : (construct p).Ok := by
  constructor
  . exact nextPrime_pos _
  . exact LinearProbe.ok_empty

theorem elemLookup_eq_some_iff_probe
    : m.elemLookup key = some i ↔ m.probe key = some (.found i) := by
  unfold elemLookup
  cases m.probe key with
  | none => simp
  | some r =>
    cases r with
    | empty _ => simp
    | found _ => simp

theorem Ok.elemLookup_eq_some_iff (hok : m.Ok)
    : m.elemLookup key = some i ↔ i < m.numBuckets ∧ m.keyAt i = some key := by
  rw [elemLookup_eq_some_iff_probe, probe_eq]
  exact hok.table.probe_found_iff (startIndex_lt hok key)

theorem elemUpdate_cases (m : BpftimeHashMap p) (key : Key p) (value : Value p)
    : (m.elemUpdate key value).2.numBuckets = m.numBuckets
        ∧ ((m.elemUpdate key value).2.keyAt = m.keyAt
            ∨ ∃ i, m.probe key = some (.empty i)
                ∧ (m.elemUpdate key value).2.keyAt = Function.update m.keyAt i (some key)) := by
  unfold elemUpdate
  cases hprobe : m.probe key with
  | none => simp
  | some r =>
    cases r with
    | empty i =>
      dsimp only
      split
      . simp
      . refine ⟨rfl, Or.inr ⟨i, rfl, ?_⟩⟩
        apply keyAt_fill
    | found i =>
      refine ⟨rfl, Or.inl ?_⟩
      apply keyAt_copyValue

theorem Ok.elemUpdate (hok : m.Ok) (key : Key p) (value : Value p)
    : (m.elemUpdate key value).2.Ok := by
  rcases elemUpdate_cases m key value with ⟨hn, hsame | ⟨i, hprobe, hfill⟩⟩
  . apply hok.of_keyAt hn
    rw [hsame]
    exact hok.table
  . apply hok.of_keyAt hn
    rw [hfill]
    rw [probe_eq] at hprobe
    exact hok.table.fill (startIndex_lt hok key) hprobe

theorem elemDelete_of_found (h : m.elemLookup key = some i)
    : (m.elemDelete key).2 = { m.setEmpty i with count := m.count - 1 } := by
  rw [elemLookup_eq_some_iff_probe] at h
  unfold elemDelete
  rw [h]
  rfl

theorem elemDelete_of_absent (h : m.elemLookup key = none) : (m.elemDelete key).2 = m := by
  unfold elemDelete
  unfold elemLookup at h
  cases hprobe : m.probe key with
  | none => rfl
  | some r =>
    cases r with
    | empty _ => rfl
    | found i => simp [hprobe] at h

theorem keyAt_elemDelete (h : m.elemLookup key = some i)
    : (m.elemDelete key).2.keyAt = Function.update m.keyAt i none := by
  rw [elemDelete_of_found h]
  exact keyAt_setEmpty m i

theorem getValue_elemDelete (h : m.elemLookup key = some i) (j : Nat)
    : (m.elemDelete key).2.getValue j = m.getValue j := by
  rw [elemDelete_of_found h]
  exact getValue_setEmpty m i j

theorem numBuckets_elemDelete (h : m.elemLookup key = some i)
    : (m.elemDelete key).2.numBuckets = m.numBuckets := by
  rw [elemDelete_of_found h]
  rfl

end BpftimeHashMap

end Bpftime.HashMap
