import Bpftime.BpfMap.HashMap.Lemmas.Count
import Bpftime.Data.BoundedMap
import Bpftime.Data.Run

namespace Bpftime.HashMap

open LinearProbe

variable {p : Params}

inductive Call (p : Params) where
  | update (key : Key p) (value : Value p)
  | lookup (key : Key p)

inductive Reply (p : Params) where
  | updated (accepted : Bool)
  | looked (value : Option (Value p))

abbrev Bounded (p : Params) := BoundedMap (Key p) (Value p) p.numBuckets

def Bounded.call (s : Bounded p) : Call p → Reply p × Bounded p
  | .update key value => (.updated (s.update key value).1, (s.update key value).2)
  | .lookup key => (.looked (s.lookup key), s)

namespace BpftimeHashMap

def call (m : BpftimeHashMap p) : Call p → Reply p × BpftimeHashMap p
  | .update key value => (.updated (m.elemUpdate key value).1, (m.elemUpdate key value).2)
  | .lookup key => (.looked (m.valueOf key), m)

def afterCalls (p : Params) (calls : List (Call p)) : BpftimeHashMap p :=
  calls.foldl (fun m c => (m.call c).2) (construct p)

variable {m : BpftimeHashMap p} {key : Key p}

theorem Ok.elemLookup_fill (hok : m.Ok) {i : Nat}
    (hprobe : m.probe key = some (.empty i)) (value : Value p)
    : (m.fill i key value).elemLookup = Function.update m.elemLookup key (some i) := by
  have hslot := hprobe
  rw [probe_eq] at hslot
  have hn : (m.fill i key value).numBuckets = m.numBuckets := rfl
  have hfill : (m.fill i key value).Ok := by
    apply hok.of_keyAt hn
    rw [keyAt_fill_count]
    exact hok.table.fill (startIndex_lt hok key) hslot
  have hempty := probe_empty (startIndex_lt hok key) hslot
  funext other
  apply Option.ext
  intro j
  rw [hfill.elemLookup_eq_some_iff, keyAt_fill_count]
  by_cases hother : other = key
  . subst hother
    rw [Function.update_self]
    constructor
    . intro h
      by_cases hj : j = i
      . rw [hj]
      . rw [Function.update_of_ne hj] at h
        have habsent := hok.table.absent_of_probe (startIndex_lt hok other) (by simp [hslot])
        exact absurd h.2 (habsent j h.1)
    . intro h
      cases h
      rw [Function.update_self]
      exact ⟨hempty.1, rfl⟩
  . rw [Function.update_of_ne hother, hok.elemLookup_eq_some_iff]
    by_cases hj : j = i
    . subst hj
      rw [Function.update_self, hempty.2.1]
      simp [Ne.symm hother]
    . rw [Function.update_of_ne hj]
      rfl

theorem Ok.valueOf_fill (hok : m.Ok) {i : Nat}
    (hprobe : m.probe key = some (.empty i)) (value : Value p)
    : (m.fill i key value).valueOf = Function.update m.valueOf key (some value) := by
  have hslot := hprobe
  rw [probe_eq] at hslot
  have hempty := probe_empty (startIndex_lt hok key) hslot
  funext other
  unfold valueOf
  rw [hok.elemLookup_fill hprobe, getValue_fill]
  by_cases hother : other = key
  . subst hother
    simp
  . rw [Function.update_of_ne hother, Function.update_of_ne hother]
    cases hlookup : m.elemLookup other with
    | none => rfl
    | some j =>
      have hj := hok.elemLookup_eq_some_iff.mp hlookup
      have hne : j ≠ i := by
        intro heq
        rw [heq, hempty.2.1] at hj
        exact absurd hj.2 (by simp)
      simp [hne]

theorem Ok.valueOf_copyValue (hok : m.Ok) {i : Nat}
    (h : m.elemLookup key = some i) (value : Value p)
    : (m.copyValue i value).valueOf = Function.update m.valueOf key (some value) := by
  have hsame : (m.copyValue i value).elemLookup = m.elemLookup := by
    funext other
    unfold elemLookup
    rw [probe_eq, probe_eq, keyAt_copyValue]
    rfl
  have hi := hok.elemLookup_eq_some_iff.mp h
  funext other
  unfold valueOf
  rw [hsame, getValue_copyValue]
  by_cases hother : other = key
  . subst hother
    simp [h]
  . rw [Function.update_of_ne hother]
    cases hlookup : m.elemLookup other with
    | none => rfl
    | some j =>
      have hj := hok.elemLookup_eq_some_iff.mp hlookup
      have hne : j ≠ i := by
        intro heq
        rw [heq, hi.2] at hj
        cases hj.2
        contradiction
      simp [hne]

structure Holds (m : BpftimeHashMap p) (s : Bounded p) : Prop where
  ok : m.Ok
  sized : m.Sized
  valueOf_eq : m.valueOf = s.lookup
  count_eq : m.count = s.size

theorem holds_construct : (construct p).Holds BoundedMap.empty := by
  constructor
  . exact ok_construct
  . exact sized_construct
  . funext key
    rw [BoundedMap.lookup_empty, valueOf_eq_none_iff]
    rw [Option.eq_none_iff_forall_not_mem]
    intro i hi
    rw [Option.mem_def, ok_construct.elemLookup_eq_some_iff] at hi
    exact absurd hi.2 (by simp [keyAt, isEmpty, construct])
  . rw [BoundedMap.size_empty]
    rfl

theorem Holds.elemUpdate {s : Bounded p} (h : m.Holds s) (key : Key p) (value : Value p)
    : (m.elemUpdate key value).1 = (s.update key value).1
        ∧ (m.elemUpdate key value).2.Holds (s.update key value).2 := by
  have hok := h.ok.elemUpdate key value
  have hsized := h.sized.elemUpdate key value
  cases hlookup : m.elemLookup key with
  | some i =>
    have hpresent : s.lookup key ≠ none := by
      rw [← h.valueOf_eq, ne_eq, valueOf_eq_none_iff, hlookup]
      simp
    have hspec := BoundedMap.update_of_present value hpresent
    rw [elemUpdate_of_found hlookup] at hok hsized ⊢
    refine ⟨hspec.1.symm, hok, hsized, ?_, ?_⟩
    . rw [h.ok.valueOf_copyValue hlookup, h.valueOf_eq, hspec.2.1]
    . rw [hspec.2.2, ← h.count_eq]
      rfl
  | none =>
    have habsent : s.lookup key = none := by
      rw [← h.valueOf_eq, valueOf_eq_none_iff]
      exact hlookup
    have hmax := h.sized.maxElementCount_eq
    have hcount := h.count_eq
    rcases Nat.lt_or_ge m.count m.maxElementCount with hroom | hfull
    . rcases h.sized.probe_of_room hlookup hroom with ⟨i, hprobe⟩
      have hspec := BoundedMap.update_of_new value habsent (by omega)
      rw [elemUpdate_of_room hprobe hroom] at hok hsized ⊢
      refine ⟨hspec.1.symm, hok, hsized, ?_, ?_⟩
      . rw [h.ok.valueOf_fill hprobe, h.valueOf_eq, hspec.2.1]
      . rw [hspec.2.2, ← h.count_eq]
        rfl
    . rw [elemUpdate_of_full hlookup hfull]
      rw [BoundedMap.update_of_full value habsent (by omega)]
      exact ⟨rfl, h⟩

theorem Holds.call {s : Bounded p} (h : m.Holds s) (c : Call p)
    : (m.call c).1 = (s.call c).1 ∧ (m.call c).2.Holds (s.call c).2 := by
  cases c with
  | update key value =>
    have hupdate := h.elemUpdate key value
    unfold BpftimeHashMap.call Bounded.call
    dsimp only
    rw [hupdate.1]
    exact ⟨rfl, hupdate.2⟩
  | lookup key =>
    unfold BpftimeHashMap.call Bounded.call
    dsimp only
    rw [h.valueOf_eq]
    exact ⟨rfl, h⟩

theorem elemUpdate_of_rejected {value : Value p} (h : (m.elemUpdate key value).1 = false)
    : (m.elemUpdate key value).2 = m := by
  unfold elemUpdate at h ⊢
  cases hprobe : m.probe key with
  | none => rfl
  | some r =>
    cases r with
    | found i => simp [hprobe] at h
    | empty i =>
      rw [hprobe] at h
      dsimp only at h ⊢
      split
      next => rfl
      next hroom =>
        rw [if_neg hroom] at h
        contradiction

theorem numBuckets_afterCalls (p : Params) (calls : List (Call p))
    : (afterCalls p calls).numBuckets = nextPrime p.numBuckets := by
  have hsized : (afterCalls p calls).Sized := by
    apply List.foldlRecOn (motive := Sized)
    . exact sized_construct
    . intro m hm c _
      cases c with
      | update key value => exact hm.elemUpdate key value
      | lookup key => exact hm
  exact hsized.numBuckets_eq

theorem calls_eq_boundedMap (p : Params) (calls : List (Call p))
    : Run.outputsTotal call (construct p) calls
          =
        Run.outputsTotal Bounded.call BoundedMap.empty calls
      ∧ (∀ key value, ((afterCalls p calls).elemUpdate key value).1 = false →
          ((afterCalls p calls).elemUpdate key value).2 = afterCalls p calls)
      ∧ ∀ index < (afterCalls p calls).numBuckets, p.Inside index := by
  refine ⟨?_, ?_, ?_⟩
  . apply Run.outputsTotal_eq_of_simulation (R := Holds)
    . intro m s c h
      exact h.call c
    . exact holds_construct
  . intro key value h
    exact elemUpdate_of_rejected h
  . intro index h
    rw [numBuckets_afterCalls] at h
    exact Params.inside h

def largeTable : Sizes := ⟨4294901771, 65523, 4294967295⟩

theorem not_inside_largeTable : nextPrime largeTable.numBuckets = 4294901771
        ∧ largeTable.bufferSize = 1376146 ∧ ∀ index, ¬ largeTable.Inside index := by
  have hprime : nextPrime largeTable.numBuckets = 4294901771 := by
    decide +kernel
  have hsize : largeTable.bufferSize = 1376146 := by
    unfold Sizes.bufferSize
    rw [hprime]
    rfl
  refine ⟨hprime, hsize, ?_⟩
  intro index h
  unfold Sizes.Inside at h
  rw [hsize] at h
  have helem : largeTable.elemSize = 4295032822 := rfl
  omega

end BpftimeHashMap

end Bpftime.HashMap
