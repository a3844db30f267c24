import Bpftime.BpfMap.HashMap.Lemmas.Table
import Bpftime.Data.Run

namespace Bpftime.HashMap

open LinearProbe

variable {p : Params}

inductive Op (p : Params) where
  | update (key : Key p) (value : Value p)
  | delete (key : Key p)

namespace BpftimeHashMap

def step (m : BpftimeHashMap p) : Op p → BpftimeHashMap p
  | .update key value => (m.elemUpdate key value).2
  | .delete key => (m.elemDelete key).2

def lookup (m : BpftimeHashMap p) (key : Key p) : Option (Nat × Value p) :=
  (m.elemLookup key).map fun index => (index, m.getValue index)

def KeysAtMostOnce (m : BpftimeHashMap p) : Prop := AtMostOnce m.numBuckets m.keyAt

def DeletesOnly (m : BpftimeHashMap p) (key : Key p) : Prop :=
  (m.step (.delete key)).lookup key = none
    ∧ ∀ other, other ≠ key → (m.step (.delete key)).lookup other = m.lookup other

/-- No key is stored twice, and a delete removes its key alone. -/
def StepMeets (m : BpftimeHashMap p) (op : Op p) : Prop :=
  (m.step op).KeysAtMostOnce ∧ ∀ key, op = .delete key → m.DeletesOnly key

/-- No other key is found through the slot a delete frees. -/
def Unshared (m : BpftimeHashMap p) (op : Op p) : Prop :=
  ∀ key, op = .delete key → ∀ i < m.numBuckets, m.keyAt i = some key →
    NoneThrough m.numBuckets m.startIndex m.keyAt i

variable {m : BpftimeHashMap p} {key : Key p}

theorem lookup_eq_none_iff : m.lookup key = none ↔ m.elemLookup key = none := by
  unfold lookup
  simp

theorem Ok.elemDelete (hok : m.Ok) (h : m.Unshared (.delete key)) : (m.elemDelete key).2.Ok := by
  cases hlookup : m.elemLookup key with
  | none =>
    rw [elemDelete_of_absent hlookup]
    exact hok
  | some i =>
    have hi := hok.elemLookup_eq_some_iff.mp hlookup
    apply hok.of_keyAt (numBuckets_elemDelete hlookup)
    rw [keyAt_elemDelete hlookup]
    apply hok.table.erase
    exact h key rfl i hi.1 hi.2

theorem Ok.step (hok : m.Ok) (op : Op p) (h : m.Unshared op) : (m.step op).Ok := by
  cases op with
  | update key value => exact hok.elemUpdate key value
  | delete key => exact hok.elemDelete h

theorem Ok.elemLookup_elemDelete (hok : m.Ok) {other : Key p}
    (h : m.Unshared (.delete key)) (hne : other ≠ key)
    : (m.elemDelete key).2.elemLookup other = m.elemLookup other := by
  cases hlookup : m.elemLookup key with
  | none => rw [elemDelete_of_absent hlookup]
  | some i =>
    have hi := hok.elemLookup_eq_some_iff.mp hlookup
    apply Option.ext
    intro j
    rw [(hok.elemDelete h).elemLookup_eq_some_iff, hok.elemLookup_eq_some_iff]
    rw [numBuckets_elemDelete hlookup, keyAt_elemDelete hlookup]
    by_cases hj : j = i
    . subst hj
      simp [hi.2, hne.symm]
    . rw [Function.update_of_ne hj]

theorem Ok.elemLookup_elemDelete_self (hok : m.Ok) (h : m.Unshared (.delete key))
    : (m.elemDelete key).2.elemLookup key = none := by
  cases hlookup : m.elemLookup key with
  | none =>
    rw [elemDelete_of_absent hlookup]
    exact hlookup
  | some i =>
    have hi := hok.elemLookup_eq_some_iff.mp hlookup
    rw [Option.eq_none_iff_forall_not_mem]
    intro j hj
    rw [Option.mem_def, (hok.elemDelete h).elemLookup_eq_some_iff] at hj
    rw [numBuckets_elemDelete hlookup, keyAt_elemDelete hlookup] at hj
    by_cases hji : j = i
    . simp [hji] at hj
    . rw [Function.update_of_ne hji] at hj
      exact hji (hok.table.atMostOnce j hj.1 i hi.1 key hj.2 hi.2)

theorem Ok.deletesOnly (hok : m.Ok) (h : m.Unshared (.delete key)) : m.DeletesOnly key := by
  constructor
  . rw [lookup_eq_none_iff]
    exact hok.elemLookup_elemDelete_self h
  . intro other hne
    unfold BpftimeHashMap.step lookup
    dsimp only
    rw [hok.elemLookup_elemDelete h hne]
    cases hlookup : m.elemLookup key with
    | none => rw [elemDelete_of_absent hlookup]
    | some i =>
      congr 1
      funext j
      rw [getValue_elemDelete hlookup]

theorem Ok.lost_of_onPath (hok : m.Ok) {other : Key p} {i j : Nat}
    (hi : m.elemLookup key = some i) (hj : m.elemLookup other = some j)
    (hpath : OnPath m.numBuckets m.startIndex other j i)
    : (m.elemDelete key).2.elemLookup other = none := by
  have hother := hok.elemLookup_eq_some_iff.mp hj
  have hn := numBuckets_elemDelete hi
  unfold BpftimeHashMap.elemLookup
  rw [probe_eq, startIndex_congr hn, hn, keyAt_elemDelete hi]
  rw [hok.table.probe_erase_of_onPath (startIndex_lt hok other) hother.1 hother.2 hpath]

theorem Ok.unshared_of_deletesOnly (hok : m.Ok) (h : m.DeletesOnly key)
    : m.Unshared (.delete key) := by
  intro k hk i hi hocc j hj hji other hother hpath
  cases hk
  have hlookup : m.elemLookup key = some i := hok.elemLookup_eq_some_iff.mpr ⟨hi, hocc⟩
  have hlookup' : m.elemLookup other = some j := hok.elemLookup_eq_some_iff.mpr ⟨hj, hother⟩
  have hne : other ≠ key := by
    intro heq
    rw [heq, hlookup] at hlookup'
    cases hlookup'
    contradiction
  have hlost := hok.lost_of_onPath hlookup hlookup' hpath
  have hsame := h.2 other hne
  rw [← lookup_eq_none_iff] at hlost
  unfold BpftimeHashMap.step at hsame
  dsimp only at hsame
  rw [hlost] at hsame
  rw [eq_comm, lookup_eq_none_iff, hlookup'] at hsame
  contradiction

theorem Ok.stepMeets_iff (hok : m.Ok) (op : Op p) : m.StepMeets op ↔ m.Unshared op := by
  constructor
  . intro h key hop
    subst hop
    exact hok.unshared_of_deletesOnly (h.2 key rfl) key rfl
  . intro h
    constructor
    . exact (hok.step op h).table.atMostOnce
    . intro key hop
      subst hop
      exact hok.deletesOnly h

theorem deletesOnly_run_iff (p : Params) (ops : List (Op p))
    : Run.Along step StepMeets (construct p) ops ↔ Run.Along step Unshared (construct p) ops := by
  apply Run.along_iff_of_invariant Ok
  . intro m op hok h
    exact hok.step op h
  . intro m op hok
    exact hok.stepMeets_iff op
  . exact ok_construct

def twoBuckets : Params := ⟨⟨2, 1, 1⟩, by decide⟩

def firstKey : Key twoBuckets := .replicate 1 0

def secondKey : Key twoBuckets := .replicate 1 2

def secondValue : Value twoBuckets := .replicate 1 9

def collidingKeys : List (Op twoBuckets) :=
  [.update firstKey (.replicate 1 7), .update secondKey secondValue]

theorem delete_hides_secondKey : let m := collidingKeys.foldl step (construct twoBuckets)
      m.lookup secondKey = some (1, secondValue)
        ∧ (m.step (.delete firstKey)).lookup secondKey = none
        ∧ ¬ m.StepMeets (.delete firstKey)
        ∧ ¬ ((m.step (.delete firstKey)).step (.update secondKey secondValue)).KeysAtMostOnce := by
  intro m
  have hbefore : m.lookup secondKey = some (1, secondValue) := by decide
  have hafter : (m.step (.delete firstKey)).lookup secondKey = none := by decide
  refine ⟨hbefore, hafter, ?_, ?_⟩
  . intro h
    have hsame := (h.2 firstKey rfl).2 secondKey (by decide)
    rw [hbefore, hafter] at hsame
    contradiction
  . intro h
    have := h 0 (by decide) 1 (by decide) secondKey (by decide) (by decide)
    contradiction

end BpftimeHashMap

end Bpftime.HashMap
