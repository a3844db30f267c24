import Bpftime.BpfMap.StackTraceMap.Impl
import Bpftime.Data.Run

/-!
This module contains when `fill_stack_trace` stores what it was given: two traces of one length that
fall into one slot count as equal.
-/

namespace Bpftime.StackTraceMap.StackTraceMapImpl

variable {hashCombine : UInt64 → UInt64 → UInt64} {m m' : StackTraceMapImpl} {stk : List UInt64}

def slotOf (hashCombine : UInt64 → UInt64 → UInt64) (m : StackTraceMapImpl) (stk : List UInt64)
    : UInt32 :=
  (hashStackTrace hashCombine stk % m.maxEntries).toUInt32

/-- The returned id finds `stk`, every other id what it found before. -/
def FillMeets (hashCombine : UInt64 → UInt64 → UInt64) (m : StackTraceMapImpl) (stk : List UInt64)
    : Prop :=
  ∃ id m', m.fillStackTrace hashCombine stk true false = some (id, m')
    ∧ m'.elemLookup (some id) = .ok (some stk)
    ∧ ∀ id', id' ≠ id → m'.elemLookup (some id') = m.elemLookup (some id')

/-- A different trace of the same length is stored that falls into the slot of `stk`. -/
def Clashes (hashCombine : UInt64 → UInt64 → UInt64) (m : StackTraceMapImpl) (stk : List UInt64)
    : Prop :=
  ∃ i old, m.data.lookup i = some old ∧ m.slotOf hashCombine old = m.slotOf hashCombine stk ∧
    old.length = stk.length ∧ old ≠ stk

theorem overwrite_resize (buf stk : List UInt64)
    : Bytes.overwrite (Bytes.resize buf stk.length) 0 stk = stk := by
  unfold Bytes.overwrite
  rw [Nat.zero_add, List.drop_of_length_le (by rw [Bytes.length_resize])]
  simp

def keepsOld (stk : List UInt64) (discardOldOne compareOnlyByHash : Bool) : Option (List UInt64) → Bool
  | none => false
  | some old => compareOnlyByHash || old.length == stk.length || !discardOldOne

theorem fillStackTrace_eq (h : m.maxEntries ≠ 0) (discardOldOne compareOnlyByHash : Bool)
    : m.fillStackTrace hashCombine stk discardOldOne compareOnlyByHash
        =
      some ((m.slotOf hashCombine stk).toInt32,
        { m with
          keyBuf := stk
          data :=
            if keepsOld stk discardOldOne compareOnlyByHash
                (m.data.lookup (m.slotOf hashCombine stk)) then
              m.data
            else
              m.data.insert (m.slotOf hashCombine stk) stk }) := by
  unfold fillStackTrace
  rw [if_neg h]
  simp only [overwrite_resize]
  unfold slotOf
  cases m.data.lookup (hashStackTrace hashCombine stk % m.maxEntries).toUInt32 with
  | none => rfl
  | some old =>
    by_cases hlen : old.length = stk.length
    . cases compareOnlyByHash <;> simp [keepsOld, hlen]
    . cases compareOnlyByHash
      . cases discardOldOne <;> simp [keepsOld, hlen]
      . simp [keepsOld]

def Placed (hashCombine : UInt64 → UInt64 → UInt64) (m : StackTraceMapImpl) : Prop :=
  ∀ i trace, m.data.lookup i = some trace → i = m.slotOf hashCombine trace

theorem step_cases {op : Op} (h : m.step hashCombine op = some m') : m' = m
      ∨ (∃ i, m' = { m with data := m.data.erase i })
      ∨ (∃ stk, m' = { m with keyBuf := stk })
      ∨ (∃ stk, m' = { m with
          keyBuf := stk
          data := m.data.insert (m.slotOf hashCombine stk) stk }) := by
  cases op with
  | lookup key | update key value flags =>
    cases h
    exact .inl rfl
  | delete key =>
    simp only [step] at h
    split at h
    next =>
      cases h
      exact .inl rfl
    next hdel =>
      cases h
      right
      left
      unfold elemDelete at hdel
      split at hdel
      next => cases hdel
      next =>
        dsimp only at hdel
        split at hdel
        next => cases hdel
        next =>
          cases hdel
          exact ⟨_, rfl⟩
  | fill stk discardOldOne compareOnlyByHash =>
    simp only [step, Option.map_eq_some_iff] at h
    rcases h with ⟨⟨id, m₁⟩, hfill, rfl⟩
    right
    right
    by_cases hzero : m.maxEntries = 0
    . unfold fillStackTrace at hfill
      rw [if_pos hzero] at hfill
      cases hfill
    . rw [fillStackTrace_eq hzero] at hfill
      cases hfill
      dsimp only
      split
      next => exact .inl ⟨_, rfl⟩
      next => exact .inr ⟨_, rfl⟩

theorem Placed.step {op : Op} (h : m.Placed hashCombine) (hstep : m.step hashCombine op = some m')
    : m'.Placed hashCombine := by
  rcases step_cases hstep with rfl | ⟨j, rfl⟩ | ⟨stk, rfl⟩ | ⟨stk, rfl⟩
  . exact h
  . intro i trace hi
    by_cases heq : i = j
    . rw [heq, AList.lookup_erase] at hi
      cases hi
    . rw [AList.lookup_erase_ne heq] at hi
      exact h i trace hi
  . exact h
  . intro i trace hi
    by_cases heq : i = m.slotOf hashCombine stk
    . rw [heq, AList.lookup_insert] at hi
      cases hi
      exact heq
    . rw [AList.lookup_insert_ne heq] at hi
      exact h i trace hi

theorem maxEntries_step {op : Op} (h : m.step hashCombine op = some m')
    : m'.maxEntries = m.maxEntries := by
  rcases step_cases h with rfl | ⟨j, rfl⟩ | ⟨stk, rfl⟩ | ⟨stk, rfl⟩ <;> rfl

theorem elemLookup_eq_ok_iff {key : Int32} {trace : List UInt64}
    : m.elemLookup (some key) = .ok (some trace)
        ↔ m.data.lookup key.toUInt32 = some trace ∧ trace ≠ [] := by
  unfold elemLookup
  dsimp only
  cases m.data.lookup key.toUInt32 with
  | none => simp
  | some old => grind

theorem elemLookup_congr {key : Int32}
    (h : m'.data.lookup key.toUInt32 = m.data.lookup key.toUInt32)
    : m'.elemLookup (some key) = m.elemLookup (some key) := by
  unfold elemLookup
  dsimp only
  rw [h]

theorem FillMeets.ne_nil (h : m.FillMeets hashCombine stk) : stk ≠ [] := by
  rcases h with ⟨id, m', _, hfound, _⟩
  exact (elemLookup_eq_ok_iff.mp hfound).2

theorem fillMeets_of_not_keepsOld (hne : m.maxEntries ≠ 0) (hstk : stk ≠ [])
    (h : keepsOld stk true false (m.data.lookup (m.slotOf hashCombine stk)) = false)
    : m.FillMeets hashCombine stk := by
  refine ⟨_, _, fillStackTrace_eq hne true false, ?_, ?_⟩
  . rw [elemLookup_eq_ok_iff, UInt32.toUInt32_toInt32]
    simp only [h, Bool.false_eq_true, ↓reduceIte]
    exact ⟨AList.lookup_insert _, hstk⟩
  . intro id' hid
    apply elemLookup_congr
    simp only [h, Bool.false_eq_true, ↓reduceIte]
    apply AList.lookup_insert_ne
    intro heq
    apply hid
    rw [← heq, Int32.toInt32_toUInt32]

theorem fillMeets_iff_of_keepsOld {old : List UInt64} (hne : m.maxEntries ≠ 0) (hstk : stk ≠ [])
    (hold : m.data.lookup (m.slotOf hashCombine stk) = some old)
    (h : keepsOld stk true false (some old) = true)
    : m.FillMeets hashCombine stk ↔ old = stk := by
  unfold FillMeets
  rw [fillStackTrace_eq hne, hold]
  simp only [h, ↓reduceIte]
  constructor
  . intro ⟨id, m', heq, hfound, _⟩
    cases heq
    rw [elemLookup_eq_ok_iff, UInt32.toUInt32_toInt32, hold] at hfound
    exact Option.some.inj hfound.1
  . intro heq
    refine ⟨_, _, rfl, ?_, ?_⟩
    . rw [elemLookup_eq_ok_iff, UInt32.toUInt32_toInt32, hold, heq]
      exact ⟨rfl, hstk⟩
    . intro id' _
      apply elemLookup_congr
      rfl

theorem Placed.clashes_iff (h : m.Placed hashCombine) : m.Clashes hashCombine stk
        ↔
      ∃ old, m.data.lookup (m.slotOf hashCombine stk) = some old ∧
        old.length = stk.length ∧ old ≠ stk := by
  constructor
  . intro ⟨i, old, hold, hslot, hlen, hne⟩
    have hi := h i old hold
    rw [hi, hslot] at hold
    exact ⟨old, hold, hlen, hne⟩
  . intro ⟨old, hold, hlen, hne⟩
    exact ⟨_, old, hold, (h _ old hold).symm, hlen, hne⟩

theorem Placed.meets_iff (h : m.Placed hashCombine) (hne : m.maxEntries ≠ 0) (hstk : stk ≠ [])
    : m.FillMeets hashCombine stk ↔ ¬ m.Clashes hashCombine stk := by
  rw [h.clashes_iff]
  cases hold : m.data.lookup (m.slotOf hashCombine stk) with
  | none =>
    apply iff_of_true
    . apply fillMeets_of_not_keepsOld hne hstk
      rw [hold]
      rfl
    . intro ⟨old, hsome, _⟩
      cases hsome
  | some old =>
    by_cases hlen : old.length = stk.length
    . rw [fillMeets_iff_of_keepsOld hne hstk hold (by simp [keepsOld, hlen])]
      simp [hlen]
    . apply iff_of_true
      . apply fillMeets_of_not_keepsOld hne hstk
        rw [hold]
        simp [keepsOld, hlen]
      . intro ⟨old', hsome, hlen', _⟩
        cases hsome
        exact hlen hlen'

structure Reached (hashCombine : UInt64 → UInt64 → UInt64) (maxEntries : UInt32)
    (m : StackTraceMapImpl) : Prop where
  placed : m.Placed hashCombine
  maxEntries_eq : m.maxEntries = maxEntries.toUInt64

theorem reached_construct {keySize valueSize maxEntries : UInt32}
    (h : construct keySize valueSize maxEntries = .ok m)
    : m.Reached hashCombine maxEntries := by
  unfold construct at h
  split at h
  next => cases h
  next =>
    split at h
    next => cases h
    next =>
      cases h
      constructor
      . intro i trace hi
        cases hi
      . rfl

theorem Reached.run {maxEntries : UInt32} {ops : List Op} (h : m.Reached hashCombine maxEntries)
    (hrun : Run.Exec (StackTraceMapImpl.step hashCombine) (fun _ _ => True) m ops m')
    : m'.Reached hashCombine maxEntries := by
  apply hrun.invariant _ h
  intro m op m' h _ hstep
  constructor
  . exact h.placed.step hstep
  . rw [maxEntries_step hstep]
    exact h.maxEntries_eq

theorem fillMeets_iff (hashCombine : UInt64 → UInt64 → UInt64)
    (keySize valueSize maxEntries : UInt32) (hmax : 1 ≤ maxEntries.toNat) (m₀ m : StackTraceMapImpl)
    (hconstruct : construct keySize valueSize maxEntries = .ok m₀) (ops : List Op)
    (hrun : Run.Exec (step hashCombine) (fun _ _ => True) m₀ ops m) (stk : List UInt64)
    : m.FillMeets hashCombine stk ↔ stk ≠ [] ∧ ¬ m.Clashes hashCombine stk := by
  have hreached : m.Reached hashCombine maxEntries := (reached_construct hconstruct).run hrun
  have hne : m.maxEntries ≠ 0 := by
    rw [hreached.maxEntries_eq]
    intro hzero
    rw [← UInt64.toNat_inj, UInt32.toNat_toUInt64] at hzero
    change maxEntries.toNat = 0 at hzero
    omega
  constructor
  . intro h
    exact ⟨h.ne_nil, (hreached.placed.meets_iff hne h.ne_nil).mp h⟩
  . intro ⟨hstk, hclash⟩
    exact (hreached.placed.meets_iff hne hstk).mpr hclash

def addHash (seed x : UInt64) : UInt64 := seed + x

def freshMap (maxEntries : UInt64) : StackTraceMapImpl := ⟨1, maxEntries, ∅, [0]⟩

def sevenStored (maxEntries : UInt64) : StackTraceMapImpl :=
  ⟨1, maxEntries, (∅ : AList fun _ : UInt32 => List UInt64).insert
    ((hashStackTrace addHash [7] % maxEntries).toUInt32) [7], [7]⟩

theorem fillMeets_sevenStored : (sevenStored 4).FillMeets addHash [9, 9] := by
  apply (fillMeets_iff addHash 4 8 4 (by decide) (freshMap 4) (sevenStored 4) rfl
    [.fill [7] true false] (.cons trivial rfl (.nil _)) [9, 9]).mpr
  refine ⟨by decide, ?_⟩
  intro ⟨i, old, hold, _, hlen, _⟩
  by_cases hi : i = (hashStackTrace addHash [7] % 4).toUInt32
  . rw [hi] at hold
    have heq : (sevenStored 4).data.lookup (hashStackTrace addHash [7] % 4).toUInt32 = some [7] := by
      decide
    rw [heq] at hold
    cases hold
    exact absurd hlen (by decide)
  . have hnone : (sevenStored 4).data.lookup i = none := by
      apply AList.lookup_insert_ne hi
    rw [hnone] at hold
    cases hold

theorem not_fillMeets_sevenStored : construct 4 8 1 = .ok (freshMap 1)
      ∧ Run.Exec (step addHash) (fun _ _ => True) (freshMap 1) [.fill [7] true false]
          (sevenStored 1)
      ∧ ¬ (sevenStored 1).FillMeets addHash [9] := by
  refine ⟨rfl, .cons trivial rfl (.nil _), ?_⟩
  intro ⟨id, m', hfill, hfound, _⟩
  have hres : (sevenStored 1).fillStackTrace addHash [9] true false
      = some (0, { sevenStored 1 with keyBuf := [9] }) := rfl
  rw [hres] at hfill
  cases hfill
  rw [elemLookup_eq_ok_iff] at hfound
  exact absurd hfound.1 (by decide)

end Bpftime.StackTraceMap.StackTraceMapImpl
