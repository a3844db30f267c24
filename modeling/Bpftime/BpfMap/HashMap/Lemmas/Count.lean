import Bpftime.BpfMap.HashMap.Lemmas.Table

namespace Bpftime.HashMap

open LinearProbe

variable {p : Params}

namespace BpftimeHashMap

def valueOf (m : BpftimeHashMap p) (key : Key p) : Option (Value p) :=
  (m.elemLookup key).map m.getValue

variable {m : BpftimeHashMap p} {key : Key p}

theorem valueOf_eq_none_iff : m.valueOf key = none ↔ m.elemLookup key = none := by
  unfold valueOf
  rw [Option.map_eq_none_iff]

def fill (m : BpftimeHashMap p) (index : Nat) (key : Key p) (value : Value p)
    : BpftimeHashMap p :=
  { ((m.copyKey index key).copyValue index value).setFilled index with count := m.count + 1 }

theorem keyAt_fill_count (m : BpftimeHashMap p) (index : Nat) (key : Key p) (value : Value p)
    : (m.fill index key value).keyAt = Function.update m.keyAt index (some key) := by
  rw [← keyAt_fill m index key value]
  rfl

theorem getValue_fill (m : BpftimeHashMap p) (index : Nat) (key : Key p) (value : Value p)
    : (m.fill index key value).getValue = Function.update m.getValue index value := by
  funext i
  unfold fill setFilled copyValue copyKey getValue
  by_cases hi : i = index <;> simp [hi]

theorem getValue_copyValue (m : BpftimeHashMap p) (index : Nat) (value : Value p)
    : (m.copyValue index value).getValue = Function.update m.getValue index value := by
  funext i
  unfold copyValue getValue
  by_cases hi : i = index <;> simp [hi]

theorem elemUpdate_of_found {i : Nat} (h : m.elemLookup key = some i) (value : Value p)
    : m.elemUpdate key value = (true, m.copyValue i value) := by
  rw [elemLookup_eq_some_iff_probe] at h
  unfold elemUpdate
  rw [h]

theorem elemUpdate_of_room {i : Nat}
    (h : m.probe key = some (.empty i)) (hroom : m.count < m.maxElementCount) (value : Value p)
    : m.elemUpdate key value = (true, m.fill i key value) := by
  unfold elemUpdate
  rw [h]
  dsimp only
  rw [if_neg (by omega)]
  rfl

theorem elemUpdate_of_full (h : m.elemLookup key = none)
    (hfull : m.maxElementCount ≤ m.count) (value : Value p)
    : m.elemUpdate key value = (false, m) := by
  unfold elemUpdate
  unfold elemLookup at h
  cases hprobe : m.probe key with
  | none => rfl
  | some r =>
    cases r with
    | empty i =>
      dsimp only
      rw [if_pos hfull]
    | found i => simp [hprobe] at h

structure Sized (m : BpftimeHashMap p) : Prop where
  count_eq : m.count = (filledSlots m.numBuckets m.keyAt).card
  maxElementCount_eq : m.maxElementCount = p.numBuckets
  numBuckets_eq : m.numBuckets = nextPrime p.numBuckets

theorem Sized.pos (h : m.Sized) : 0 < m.numBuckets := by
  rw [h.numBuckets_eq]
  exact nextPrime_pos p.numBuckets

theorem Sized.startIndex_lt (h : m.Sized) (key : Key p) : m.startIndex key < m.numBuckets := by
  apply Nat.mod_lt
  exact h.pos

theorem Sized.maxElementCount_le (h : m.Sized) : m.maxElementCount ≤ m.numBuckets := by
  rw [h.maxElementCount_eq, h.numBuckets_eq]
  exact (nextPrime_spec p.numBuckets).2.1

theorem sized_construct : (construct p).Sized := by
  constructor
  . exact card_filledSlots_empty.symm
  . rfl
  . rfl

theorem Sized.probe_of_room (h : m.Sized)
    (habsent : m.elemLookup key = none) (hroom : m.count < m.maxElementCount)
    : ∃ i, m.probe key = some (.empty i) := by
  have hne : m.probe key ≠ none := by
    rw [probe_eq]
    apply probe_ne_none_of_card_lt (h.startIndex_lt key)
    rw [← h.count_eq]
    have := h.maxElementCount_le
    omega
  unfold elemLookup at habsent
  cases hprobe : m.probe key with
  | none => contradiction
  | some r =>
    cases r with
    | empty i => exists i
    | found i => simp [hprobe] at habsent

theorem Sized.copyValue (h : m.Sized) (i : Nat) (value : Value p)
    : (m.copyValue i value).Sized := by
  constructor
  . rw [keyAt_copyValue]
    exact h.count_eq
  . exact h.maxElementCount_eq
  . exact h.numBuckets_eq

theorem Sized.fill (h : m.Sized) {i : Nat}
    (hprobe : m.probe key = some (.empty i)) (value : Value p)
    : (m.fill i key value).Sized := by
  rw [probe_eq] at hprobe
  have hslot := probe_empty (h.startIndex_lt key) hprobe
  constructor
  . rw [keyAt_fill_count]
    have hcard := card_filledSlots_fill hslot.1 hslot.2.1 key
    rw [← h.count_eq] at hcard
    exact hcard.symm
  . exact h.maxElementCount_eq
  . exact h.numBuckets_eq

theorem Sized.elemUpdate (h : m.Sized) (key : Key p) (value : Value p)
    : (m.elemUpdate key value).2.Sized := by
  cases hlookup : m.elemLookup key with
  | some i =>
    rw [elemUpdate_of_found hlookup]
    exact h.copyValue i value
  | none =>
    rcases Nat.lt_or_ge m.count m.maxElementCount with hroom | hfull
    . rcases h.probe_of_room hlookup hroom with ⟨i, hprobe⟩
      rw [elemUpdate_of_room hprobe hroom]
      exact h.fill hprobe value
    . rw [elemUpdate_of_full hlookup hfull]
      exact h

theorem Sized.elemDelete (h : m.Sized) (key : Key p) : (m.elemDelete key).2.Sized := by
  cases hlookup : m.elemLookup key with
  | none =>
    rw [elemDelete_of_absent hlookup]
    exact h
  | some i =>
    have hfound := elemLookup_eq_some_iff_probe.mp hlookup
    rw [probe_eq] at hfound
    have hslot := probe_found (h.startIndex_lt key) hfound
    have hkey := keyAt_elemDelete hlookup
    rw [elemDelete_of_found hlookup] at hkey ⊢
    have hne : m.keyAt i ≠ none := by
      rw [hslot.2]
      exact Option.some_ne_none key
    constructor
    . rw [hkey]
      have hcard := card_filledSlots_erase hslot.1 hne
      rw [← h.count_eq] at hcard
      exact Nat.sub_eq_of_eq_add hcard.symm
    . exact h.maxElementCount_eq
    . exact h.numBuckets_eq

end BpftimeHashMap

end Bpftime.HashMap
