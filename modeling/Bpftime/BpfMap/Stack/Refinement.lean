import Bpftime.BpfMap.Queue.Refinement
import Bpftime.BpfMap.Stack.Impl

namespace Bpftime.Stack

open Queue (Params Value Call Reply PushFlag)

variable {p : Params}

abbrev Lifo (p : Params) := List (Value p)

namespace Lifo

def push (l : Lifo p) (value : Value p) (flag : PushFlag) : Reply × Lifo p :=
  if l.length < p.maxEntries.toNat then
    (.done, value :: l)
  else
    match flag with
    | .any => (.failure .E2BIG, l)
    | .exist => (.done, value :: l.dropLast)

def top (l : Lifo p) : Reply :=
  match l with
  | [] => .failure .ENOENT
  | value :: _ => .value value.toList

def delete (l : Lifo p) : Reply × Lifo p :=
  match l with
  | [] => (.failure .ENOENT, [])
  | _ :: rest => (.done, rest)

def call (l : Lifo p) : Call p → Reply × Lifo p
  | .push value flag => l.push value flag
  | .update value flag => l.push value flag
  | .pop => (l.top, l.tail)
  | .peek => (l.top, l)
  | .lookup => (l.top, l)
  | .delete => l.delete

def bytes (l : Lifo p) : List UInt8 := (l.reverse.map Vector.toList).flatten

theorem bytes_cons (value : Value p) (rest : Lifo p)
    : bytes (value :: rest) = rest.bytes ++ value.toList := by
  unfold bytes
  simp only [List.reverse_cons, List.map_append, List.map_cons, List.map_nil, List.flatten_append,
    List.flatten_cons, List.flatten_nil, List.append_nil]

theorem bytes_concat (l : Lifo p) (oldest : Value p)
    : bytes (l ++ [oldest]) = oldest.toList ++ bytes l := by
  unfold bytes
  simp only [List.reverse_append, List.reverse_cons, List.reverse_nil, List.nil_append,
    List.cons_append, List.map_cons, List.flatten_cons]

theorem length_bytes (l : Lifo p) : l.bytes.length = l.length * p.valueSize.toNat := by
  induction l with
  | nil => simp [bytes]
  | cons value rest ih =>
    rw [bytes_cons, List.length_append, ih, Vector.length_toList, List.length_cons, Nat.succ_mul]

end Lifo

namespace StackMapImpl

def call (s : StackMapImpl p) : Call p → Option (Reply × StackMapImpl p)
  | .push value flag => do
    let (result, s) ← s.mapPushElem (some value) flag.toFlags
    return (.ofUnit result, s)
  | .update value flag => do
    let (result, s) ← s.elemUpdate (some value) flag.toFlags
    return (.ofUnit result, s)
  | .pop => do
    let (result, s) ← s.mapPopElem true
    return (.ofBytes result, s)
  | .peek => do
    return (.ofBytes (← s.mapPeekElem true), s)
  | .lookup =>
    match s.elemLookup with
    | .error e => some (.failure e, s)
    | .ok ptr => do
      return (.value (← s.valueAt ptr), s)
  | .delete => do
    let (result, s) ← s.elemDelete
    return (.ofUnit result, s)

structure Holds (s : StackMapImpl p) (l : Lifo p) : Prop where
  value_pos : 0 < p.valueSize.toNat
  entries_pos : 0 < p.maxEntries.toNat
  length_le : l.length ≤ p.maxEntries.toNat
  data_eq : s.data = l.bytes

section Steps

variable {s : StackMapImpl p} {l rest : Lifo p} {value : Value p}

theorem Holds.getCurrentSize (h : s.Holds l) : s.getCurrentSize = l.length := by
  unfold StackMapImpl.getCurrentSize
  rw [h.data_eq, l.length_bytes]
  apply Nat.mul_div_cancel
  exact h.value_pos

theorem Holds.isFull_iff (h : s.Holds l) : s.isFull = true ↔ ¬ l.length < p.maxEntries.toNat := by
  unfold isFull
  rw [h.getCurrentSize, decide_eq_true_eq]
  omega

theorem Holds.isEmpty_nil (h : s.Holds []) : s.isEmpty = true := by
  unfold isEmpty
  rw [h.data_eq]
  rfl

theorem Holds.length_data (h : s.Holds (value :: rest))
    : s.data.length = rest.bytes.length + p.valueSize.toNat := by
  rw [h.data_eq, Lifo.bytes_cons, List.length_append, Vector.length_toList]

theorem Holds.isEmpty_cons (h : s.Holds (value :: rest)) : s.isEmpty = false := by
  have hlength := h.length_data
  have hpos := h.value_pos
  unfold isEmpty
  rw [← Bool.not_eq_true, List.isEmpty_iff]
  intro hnil
  rw [hnil, List.length_nil] at hlength
  omega

theorem Holds.valueAt_top (h : s.Holds (value :: rest))
    : s.valueAt s.topOffset = some value.toList := by
  have htop : s.topOffset = rest.bytes.length := by
    unfold topOffset
    rw [h.getCurrentSize, List.length_cons, Nat.add_sub_cancel, rest.length_bytes]
  have hlength := h.length_data
  unfold valueAt
  rw [htop, if_pos (by omega), h.data_eq, Lifo.bytes_cons, List.drop_left]
  rw [List.take_of_length_le]
  rw [Vector.length_toList]

theorem Holds.eraseLast (h : s.Holds (value :: rest))
    : ∃ s', s.eraseLast = some s' ∧ s'.Holds rest := by
  have hlength := h.length_data
  have hle := h.length_le
  unfold StackMapImpl.eraseLast
  rw [if_pos (by omega)]
  refine ⟨_, rfl, h.value_pos, h.entries_pos, ?_, ?_⟩
  . rw [List.length_cons] at hle
    omega
  . dsimp only
    rw [hlength, Nat.add_sub_cancel, h.data_eq, Lifo.bytes_cons, List.take_left]

theorem Holds.eraseFirst {oldest : Value p} (h : s.Holds (l ++ [oldest]))
    : ∃ s', s.eraseFirst = some s' ∧ s'.Holds l := by
  have hdata := h.data_eq
  have hle := h.length_le
  rw [Lifo.bytes_concat] at hdata
  have holdest : oldest.toList.length = p.valueSize.toNat := Vector.length_toList
  have hlength : p.valueSize.toNat ≤ s.data.length := by
    rw [hdata, List.length_append, holdest]
    omega
  unfold StackMapImpl.eraseFirst
  rw [if_pos hlength]
  refine ⟨_, rfl, h.value_pos, h.entries_pos, ?_, ?_⟩
  . rw [List.length_append, List.length_singleton] at hle
    omega
  . dsimp only
    rw [hdata]
    exact List.drop_left' holdest

theorem Holds.append (h : s.Holds l) (hroom : l.length < p.maxEntries.toNat) (value : Value p)
    : (s.append value).Holds (value :: l) := by
  refine ⟨h.value_pos, h.entries_pos, hroom, ?_⟩
  rw [Lifo.bytes_cons, ← h.data_eq]
  rfl

theorem Holds.insert (h : s.Holds l) (value : Value p) (flag : PushFlag)
    : ∃ result s', s.insert value flag.toFlags = some (result, s')
        ∧ Reply.ofUnit result = (l.push value flag).1 ∧ s'.Holds (l.push value flag).2 := by
  unfold StackMapImpl.insert Lifo.push
  by_cases hroom : l.length < p.maxEntries.toNat
  . have hfull : ¬ s.isFull = true := by
      rw [h.isFull_iff]
      simp [hroom]
    rw [if_neg hfull, if_pos hroom]
    exact ⟨.ok (), _, rfl, rfl, h.append hroom value⟩
  . rw [if_pos (h.isFull_iff.mpr hroom), if_neg hroom]
    cases flag with
    | any =>
      rw [if_neg (by decide)]
      exact ⟨_, _, rfl, rfl, h⟩
    | exist =>
      have hflag : PushFlag.exist.toFlags = BPF_EXIST := rfl
      rw [if_pos hflag]
      have hpos := h.entries_pos
      rcases l.eq_nil_or_concat with rfl | ⟨newer, oldest, rfl⟩
      . simp at hroom
        omega
      . have hle := h.length_le
        rw [List.concat_eq_append] at h hle ⊢
        rw [List.length_append, List.length_singleton] at hle
        rcases h.eraseFirst with ⟨s', herase, h'⟩
        rw [herase]
        refine ⟨.ok (), _, rfl, rfl, ?_⟩
        rw [List.dropLast_concat]
        exact h'.append (by omega) value

theorem mapPushElem_eq (s : StackMapImpl p) (value : Value p) (flag : PushFlag)
    : s.mapPushElem (some value) flag.toFlags = s.insert value flag.toFlags := by
  unfold mapPushElem
  dsimp only
  rw [if_neg]
  cases flag with
  | any => decide
  | exist => decide

theorem Holds.call (h : s.Holds l) (c : Call p)
    : ∃ s', s.call c = some ((l.call c).1, s') ∧ s'.Holds (l.call c).2 := by
  cases c with
  | push value flag =>
    rcases h.insert value flag with ⟨result, s', hinsert, hreply, h'⟩
    refine ⟨s', ?_, h'⟩
    unfold StackMapImpl.call Lifo.call
    dsimp only
    rw [mapPushElem_eq, hinsert, ← hreply]
    rfl
  | update value flag =>
    rcases h.insert value flag with ⟨result, s', hinsert, hreply, h'⟩
    refine ⟨s', ?_, h'⟩
    unfold StackMapImpl.call Lifo.call elemUpdate
    dsimp only
    rw [hinsert, ← hreply]
    rfl
  | pop =>
    unfold StackMapImpl.call Lifo.call mapPopElem
    cases l with
    | nil =>
      simp only [Bool.not_true, Bool.false_eq_true, if_false, h.isEmpty_nil, if_true]
      exact ⟨s, rfl, h⟩
    | cons value rest =>
      rcases h.eraseLast with ⟨s', herase, h'⟩
      simp only [Bool.not_true, Bool.false_eq_true, if_false, h.isEmpty_cons, h.valueAt_top, herase]
      exact ⟨s', rfl, h'⟩
  | peek =>
    unfold StackMapImpl.call Lifo.call mapPeekElem
    cases l with
    | nil =>
      simp only [Bool.not_true, Bool.false_eq_true, if_false, h.isEmpty_nil, if_true]
      exact ⟨s, rfl, h⟩
    | cons value rest =>
      simp only [Bool.not_true, Bool.false_eq_true, if_false, h.isEmpty_cons, h.valueAt_top]
      exact ⟨s, rfl, h⟩
  | lookup =>
    unfold StackMapImpl.call Lifo.call elemLookup
    cases l with
    | nil =>
      simp only [h.isEmpty_nil, if_true]
      exact ⟨s, rfl, h⟩
    | cons value rest =>
      simp only [Bool.false_eq_true, if_false, h.isEmpty_cons, h.valueAt_top]
      exact ⟨s, rfl, h⟩
  | delete =>
    unfold StackMapImpl.call Lifo.call elemDelete
    cases l with
    | nil =>
      simp only [h.isEmpty_nil, if_true]
      exact ⟨s, rfl, h⟩
    | cons value rest =>
      rcases h.eraseLast with ⟨s', herase, h'⟩
      simp only [Bool.false_eq_true, if_false, h.isEmpty_cons, herase]
      exact ⟨s', rfl, h'⟩

end Steps

theorem insert_ne_EINVAL (s s' : StackMapImpl p) (value : Value p) (flags : UInt64)
    : s.insert value flags ≠ some (.error .EINVAL, s') := by
  unfold insert
  split
  . split
    . simp [Option.bind_eq_some_iff]
    . simp
  . simp

theorem elemUpdate_eq_mapPushElem_iff (s : StackMapImpl p) (value : Option (Value p)) (flags : UInt64)
    : s.elemUpdate value flags = s.mapPushElem value flags
        ↔
      value = none ∨ flags = BPF_ANY ∨ flags = BPF_EXIST := by
  unfold elemUpdate mapPushElem
  cases value with
  | none => simp
  | some value =>
    simp only [reduceCtorEq, false_or]
    split
    next h => simp [insert_ne_EINVAL, h]
    next h =>
      simp only [true_iff]
      by_contra hflags
      rw [not_or] at hflags
      exact h ⟨hflags.1, hflags.1, hflags.2⟩

theorem holds_construct (hvalue : 1 ≤ p.valueSize) (hentries : 1 ≤ p.maxEntries)
    : ∃ s, construct p = some s ∧ s.Holds [] := by
  rw [UInt32.le_iff_toNat_le, UInt32.toNat_one] at hvalue hentries
  have hvalue0 : p.valueSize ≠ 0 := by
    intro heq
    rw [heq] at hvalue
    simp at hvalue
  have hentries0 : p.maxEntries ≠ 0 := by
    intro heq
    rw [heq] at hentries
    simp at hentries
  unfold construct
  rw [if_neg (by simp [hvalue0, hentries0])]
  exact ⟨_, rfl, hvalue, hentries, Nat.zero_le _, rfl⟩

theorem calls_eq_lifo (p : Params) (hvalue : 1 ≤ p.valueSize) (hentries : 1 ≤ p.maxEntries)
    : ∃ s, construct p = some s
        ∧ ∀ calls, Run.outputs call s calls = some (Run.outputsTotal Lifo.call [] calls) := by
  rcases holds_construct hvalue hentries with ⟨s, hconstruct, h⟩
  refine ⟨s, hconstruct, ?_⟩
  intro calls
  apply Run.outputs_eq_of_simulation (R := Holds)
  . intro s l c h
    exact h.call c
  . exact h

theorem calls_eq_lifo_twoEntries : let p : Params := ⟨1, 2⟩
      let value (b : UInt8) : Value p := .replicate 1 b
      ∃ s, construct p = some s
        ∧ Run.outputs call s [.push (value 1) .any, .push (value 2) .any, .push (value 3) .any,
              .update (value 3) .exist, .pop, .lookup, .delete, .pop]
            = some [.done, .done, .failure .E2BIG, .done, .value [3], .value [2], .done,
              .failure .ENOENT] := by
  intro p value
  rcases calls_eq_lifo p (by decide) (by decide) with ⟨s, hconstruct, hcalls⟩
  refine ⟨s, hconstruct, ?_⟩
  rw [hcalls]
  decide

end StackMapImpl

theorem update_eq_push_iff (p : Params) (value : Option (Value p)) (flags : UInt64)
    : (∀ q : Queue.QueueMapImpl p,
        q.elemUpdate value flags = q.mapPushElem value flags
          ↔
        value = none ∨ flags = BPF_ANY ∨ flags = BPF_EXIST)
        ∧
      (∀ s : StackMapImpl p,
        s.elemUpdate value flags = s.mapPushElem value flags
          ↔
        value = none ∨ flags = BPF_ANY ∨ flags = BPF_EXIST) := by
  constructor
  . intro q
    apply Queue.QueueMapImpl.elemUpdate_eq_mapPushElem_iff
  . intro s
    apply StackMapImpl.elemUpdate_eq_mapPushElem_iff

theorem update_ne_push_noexist : let p : Params := ⟨1, 1⟩
      let value : Value p := .replicate 1 7
      (∃ q, Queue.construct p = some q
          ∧ (q.elemUpdate (some value) BPF_NOEXIST).map Prod.fst = some (.ok ())
          ∧ (q.mapPushElem (some value) BPF_NOEXIST).map Prod.fst = some (.error .EINVAL))
        ∧
      (∃ s, construct p = some s
          ∧ (s.elemUpdate (some value) BPF_NOEXIST).map Prod.fst = some (.ok ())
          ∧ (s.mapPushElem (some value) BPF_NOEXIST).map Prod.fst = some (.error .EINVAL)) :=
  ⟨⟨_, rfl, rfl, rfl⟩, ⟨_, rfl, rfl, rfl⟩⟩

end Bpftime.Stack
