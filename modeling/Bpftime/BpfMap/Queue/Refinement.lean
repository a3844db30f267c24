import Bpftime.BpfMap.Queue.Impl
import Bpftime.Data.Circular
import Bpftime.Data.Run

namespace Bpftime.Queue

variable {p : Params}

inductive PushFlag where
  | any
  | exist

def PushFlag.toFlags : PushFlag → UInt64
  | .any => BPF_ANY
  | .exist => BPF_EXIST

inductive Call (p : Params) where
  | push (value : Value p) (flag : PushFlag)
  | update (value : Value p) (flag : PushFlag)
  | pop
  | peek
  | lookup
  | delete

inductive Reply where
  | done
  | value (bytes : List UInt8)
  | failure (e : Errno)
  deriving DecidableEq

def Reply.ofUnit : Except Errno Unit → Reply
  | .ok _ => .done
  | .error e => .failure e

def Reply.ofBytes : Except Errno (List UInt8) → Reply
  | .ok bytes => .value bytes
  | .error e => .failure e

abbrev Fifo (p : Params) := List (Value p)

namespace Fifo

def push (s : Fifo p) (value : Value p) (flag : PushFlag) : Reply × Fifo p :=
  if s.length < p.maxEntries.toNat then
    (.done, s ++ [value])
  else
    match flag with
    | .any => (.failure .E2BIG, s)
    | .exist => (.done, s.tail ++ [value])

def first (s : Fifo p) : Reply :=
  match s with
  | [] => .failure .ENOENT
  | value :: _ => .value value.toList

def delete (s : Fifo p) : Reply × Fifo p :=
  match s with
  | [] => (.failure .ENOENT, [])
  | _ :: rest => (.done, rest)

def call (s : Fifo p) : Call p → Reply × Fifo p
  | .push value flag => s.push value flag
  | .update value flag => s.push value flag
  | .pop => (s.first, s.tail)
  | .peek => (s.first, s)
  | .lookup => (s.first, s)
  | .delete => s.delete

end Fifo

namespace QueueMapImpl

def call (q : QueueMapImpl p) : Call p → Option (Reply × QueueMapImpl p)
  | .push value flag => do
    let (result, q) ← q.mapPushElem (some value) flag.toFlags
    return (.ofUnit result, q)
  | .update value flag => do
    let (result, q) ← q.elemUpdate (some value) flag.toFlags
    return (.ofUnit result, q)
  | .pop => do
    let (result, q) ← q.mapPopElem true
    return (.ofBytes result, q)
  | .peek => do
    return (.ofBytes (← q.mapPeekElem true), q)
  | .lookup =>
    match q.elemLookup with
    | .error e => some (.failure e, q)
    | .ok ptr => do
      return (.value (← q.data.load ptr p.valueSize.toNat), q)
  | .delete => some (.ofUnit q.elemDelete.1, q.elemDelete.2)

def cell (p : Params) (data : ByteMem) (i : Nat) : List UInt8 :=
  data.bytes (i * p.valueSize.toNat) p.valueSize.toNat

structure Holds (q : QueueMapImpl p) (s : Fifo p) : Prop where
  entries_pos : 0 < p.maxEntries.toNat
  fits : p.valueSize.toNat * p.maxEntries.toNat < 2 ^ 32
  len_eq : q.data.len = p.maxEntries.toNat * p.valueSize.toNat
  head_lt : q.head.toNat < p.maxEntries.toNat
  tail_eq : q.tail.toNat = (q.head.toNat + q.count.toNat) % p.maxEntries.toNat
  count_le : q.count.toNat ≤ p.maxEntries.toNat
  contents_eq : Circular.contents p.maxEntries.toNat (cell p q.data) q.head.toNat q.count.toNat
    = s.map Vector.toList

section Words

theorem toNat_offset (hfits : p.valueSize.toNat * p.maxEntries.toNat < 2 ^ 32) {index : UInt32}
    (h : index.toNat < p.maxEntries.toNat)
    : offset p index = index.toNat * p.valueSize.toNat := by
  unfold offset
  rw [UInt32.toNat_mul, Nat.mod_eq_of_lt]
  apply Nat.lt_of_le_of_lt _ hfits
  rw [Nat.mul_comm]
  apply Nat.mul_le_mul_left
  omega

theorem offset_add_le (hfits : p.valueSize.toNat * p.maxEntries.toNat < 2 ^ 32) {index : UInt32}
    (h : index.toNat < p.maxEntries.toNat)
    : offset p index + p.valueSize.toNat ≤ p.maxEntries.toNat * p.valueSize.toNat := by
  rw [toNat_offset hfits h, ← Nat.succ_mul]
  apply Nat.mul_le_mul_right
  omega

theorem toNat_nextIndex {index : UInt32} (h : index.toNat < p.maxEntries.toNat)
    : (nextIndex p index).toNat = (index.toNat + 1) % p.maxEntries.toNat := by
  have := p.maxEntries.toNat_lt
  unfold nextIndex
  rw [UInt32.toNat_mod, UInt32.toNat_add]
  congr 1
  apply Nat.mod_eq_of_lt
  simp only [UInt32.toNat_one]
  omega

theorem toNat_nextIndex_lt {index : UInt32} (h : index.toNat < p.maxEntries.toNat)
    : (nextIndex p index).toNat < p.maxEntries.toNat := by
  rw [toNat_nextIndex h]
  apply Nat.mod_lt
  omega

end Words

section Steps

variable {q : QueueMapImpl p} {s : Fifo p}

theorem Holds.length_eq (h : q.Holds s) : s.length = q.count.toNat := by
  have := congrArg List.length h.contents_eq
  rw [Circular.length_contents, List.length_map] at this
  exact this.symm

theorem Holds.isFull_iff (h : q.Holds s) : q.isFull = true ↔ ¬ s.length < p.maxEntries.toNat := by
  unfold isFull
  rw [decide_eq_true_eq, ge_iff_le, UInt32.le_iff_toNat_le, h.length_eq]
  omega

theorem Holds.isEmpty_iff (h : q.Holds s) : q.isEmpty = true ↔ s = [] := by
  unfold isEmpty
  rw [decide_eq_true_eq, ← List.length_eq_zero_iff, h.length_eq]
  rw [← UInt32.toNat_inj]
  rfl

variable {value : Value p} {rest : Fifo p}

theorem Holds.isEmpty_cons (h : q.Holds (value :: rest)) : q.isEmpty = false := by
  rw [← Bool.not_eq_true, h.isEmpty_iff]
  simp

theorem Holds.count_cons (h : q.Holds (value :: rest)) : q.count.toNat = rest.length + 1 := by
  rw [← h.length_eq]
  rfl

theorem Holds.load_head (h : q.Holds (value :: rest))
    : q.data.load (offset p q.head) p.valueSize.toNat = some value.toList := by
  have hcontents := h.contents_eq
  rw [h.count_cons, Circular.contents_succ, List.map_cons, Nat.mod_eq_of_lt h.head_lt] at hcontents
  have hcell := (List.cons.inj hcontents).1
  rw [ByteMem.load_eq_some]
  . rw [toNat_offset h.fits h.head_lt]
    exact congrArg some hcell
  . rw [h.len_eq]
    exact offset_add_le h.fits h.head_lt

theorem Holds.removeOldest (h : q.Holds (value :: rest)) : q.removeOldest.Holds rest := by
  have hcount := h.count_cons
  have hle : (1 : UInt32) ≤ q.count := by
    rw [UInt32.le_iff_toNat_le, hcount]
    simp
  have hcount' : (q.count - 1).toNat = rest.length := by
    rw [UInt32.toNat_sub_of_le _ _ hle, hcount]
    simp
  refine { h with
    head_lt := toNat_nextIndex_lt h.head_lt, tail_eq := ?_, count_le := ?_, contents_eq := ?_ }
  . unfold QueueMapImpl.removeOldest
    dsimp only
    rw [toNat_nextIndex h.head_lt, hcount', h.tail_eq, hcount, Nat.mod_add_mod]
    congr 1
    omega
  . have := h.count_le
    unfold QueueMapImpl.removeOldest
    dsimp only
    omega
  . have hcontents := h.contents_eq
    rw [hcount, Circular.contents_succ, List.map_cons] at hcontents
    unfold QueueMapImpl.removeOldest
    dsimp only
    rw [toNat_nextIndex h.head_lt, hcount']
    exact (List.cons.inj hcontents).2

theorem cell_write_self (data : ByteMem) (t : Nat) (value : Value p)
    : cell p (data.write (t * p.valueSize.toNat) value.toList) t = value.toList := by
  have := ByteMem.bytes_write_self data (t * p.valueSize.toNat) value.toList
  rw [Vector.length_toList] at this
  exact this

theorem cell_write_of_ne (data : ByteMem) {t i : Nat} (h : i ≠ t) (value : Value p)
    : cell p (data.write (t * p.valueSize.toNat) value.toList) i = cell p data i := by
  apply ByteMem.bytes_congr
  intro j hj
  apply ByteMem.byte_write_of_outside
  rw [Vector.length_toList]
  rcases Nat.lt_or_gt_of_ne h with hlt | hgt
  . left
    have := Nat.mul_le_mul_right p.valueSize.toNat (Nat.succ_le_of_lt hlt)
    rw [Nat.succ_mul] at this
    omega
  . right
    have := Nat.mul_le_mul_right p.valueSize.toNat (Nat.succ_le_of_lt hgt)
    rw [Nat.succ_mul] at this
    omega

theorem Holds.append (h : q.Holds s) (hroom : s.length < p.maxEntries.toNat) (value : Value p)
    : ∃ q', q.append value = some q' ∧ q'.Holds (s ++ [value]) := by
  have htail : q.tail.toNat < p.maxEntries.toNat := by
    rw [h.tail_eq]
    apply Nat.mod_lt
    exact h.entries_pos
  have hcount : (q.count + 1).toNat = q.count.toNat + 1 := by
    have := p.maxEntries.toNat_lt
    rw [h.length_eq] at hroom
    rw [UInt32.toNat_add, UInt32.toNat_one]
    apply Nat.mod_eq_of_lt
    omega
  have hstore : q.data.store (offset p q.tail) value.toList
      = some (q.data.write (q.tail.toNat * p.valueSize.toNat) value.toList) := by
    rw [ByteMem.store_eq_some, toNat_offset h.fits htail]
    rw [Vector.length_toList, h.len_eq]
    exact offset_add_le h.fits htail
  have happend : q.append value
      = some { q with
          data := q.data.write (q.tail.toNat * p.valueSize.toNat) value.toList
          tail := nextIndex p q.tail
          count := q.count + 1 } := by
    unfold QueueMapImpl.append
    rw [hstore]
    rfl
  refine ⟨_, happend, ?_⟩
  rw [h.length_eq] at hroom
  refine { h with tail_eq := ?_, count_le := ?_, contents_eq := ?_ }
  . dsimp only
    rw [toNat_nextIndex htail, hcount, h.tail_eq, Nat.mod_add_mod]
    rfl
  . dsimp only
    omega
  . dsimp only
    rw [hcount, List.map_append, ← h.contents_eq]
    apply Circular.contents_push hroom
    . rw [← h.tail_eq]
      exact cell_write_self q.data q.tail.toNat value
    . intro i hi
      rw [← h.tail_eq] at hi
      exact cell_write_of_ne q.data hi value

theorem Holds.insert (h : q.Holds s) (value : Value p) (flag : PushFlag)
    : ∃ result q', q.insert value flag.toFlags = some (result, q')
        ∧ Reply.ofUnit result = (s.push value flag).1 ∧ q'.Holds (s.push value flag).2 := by
  unfold QueueMapImpl.insert Fifo.push
  by_cases hroom : s.length < p.maxEntries.toNat
  . have hfull : ¬ q.isFull = true := by
      rw [h.isFull_iff]
      simp [hroom]
    rcases h.append hroom value with ⟨q', happend, h'⟩
    rw [if_neg hfull, if_pos hroom, happend]
    exact ⟨.ok (), q', rfl, rfl, h'⟩
  . rw [if_pos (h.isFull_iff.mpr hroom), if_neg hroom]
    cases flag with
    | any =>
      rw [if_neg (by decide)]
      exact ⟨_, _, rfl, rfl, h⟩
    | exist =>
      have hflag : PushFlag.exist.toFlags = BPF_EXIST := rfl
      rw [if_pos hflag]
      cases s with
      | nil =>
        have := h.entries_pos
        simp at hroom
        omega
      | cons oldest rest =>
        have hlength : rest.length < p.maxEntries.toNat := by
          have := h.count_le
          rw [h.count_cons] at this
          omega
        rcases h.removeOldest.append hlength value with ⟨q', happend, h'⟩
        rw [happend]
        exact ⟨.ok (), q', rfl, rfl, h'⟩

theorem mapPushElem_eq (q : QueueMapImpl p) (value : Value p) (flag : PushFlag)
    : q.mapPushElem (some value) flag.toFlags = q.insert value flag.toFlags := by
  unfold mapPushElem
  dsimp only
  rw [if_neg]
  cases flag with
  | any => decide
  | exist => decide

theorem Holds.call (h : q.Holds s) (c : Call p)
    : ∃ q', q.call c = some ((s.call c).1, q') ∧ q'.Holds (s.call c).2 := by
  cases c with
  | push value flag =>
    rcases h.insert value flag with ⟨result, q', hinsert, hreply, h'⟩
    refine ⟨q', ?_, h'⟩
    unfold QueueMapImpl.call Fifo.call
    dsimp only
    rw [mapPushElem_eq, hinsert, ← hreply]
    rfl
  | update value flag =>
    rcases h.insert value flag with ⟨result, q', hinsert, hreply, h'⟩
    refine ⟨q', ?_, h'⟩
    unfold QueueMapImpl.call Fifo.call elemUpdate
    dsimp only
    rw [hinsert, ← hreply]
    rfl
  | pop =>
    unfold QueueMapImpl.call Fifo.call mapPopElem
    cases s with
    | nil =>
      simp only [Bool.not_true, Bool.false_eq_true, if_false, h.isEmpty_iff.mpr rfl, if_true]
      exact ⟨q, rfl, h⟩
    | cons value rest =>
      simp only [Bool.not_true, Bool.false_eq_true, if_false, h.isEmpty_cons, h.load_head]
      exact ⟨q.removeOldest, rfl, h.removeOldest⟩
  | peek =>
    unfold QueueMapImpl.call Fifo.call mapPeekElem
    cases s with
    | nil =>
      simp only [Bool.not_true, Bool.false_eq_true, if_false, h.isEmpty_iff.mpr rfl, if_true]
      exact ⟨q, rfl, h⟩
    | cons value rest =>
      simp only [Bool.not_true, Bool.false_eq_true, if_false, h.isEmpty_cons, h.load_head]
      exact ⟨q, rfl, h⟩
  | lookup =>
    unfold QueueMapImpl.call Fifo.call elemLookup
    cases s with
    | nil =>
      simp only [h.isEmpty_iff.mpr rfl, if_true]
      exact ⟨q, rfl, h⟩
    | cons value rest =>
      simp only [Bool.false_eq_true, if_false, h.isEmpty_cons, h.load_head]
      exact ⟨q, rfl, h⟩
  | delete =>
    unfold QueueMapImpl.call Fifo.call elemDelete
    cases s with
    | nil =>
      simp only [h.isEmpty_iff.mpr rfl, if_true]
      exact ⟨q, rfl, h⟩
    | cons value rest =>
      simp only [Bool.false_eq_true, if_false, h.isEmpty_cons]
      exact ⟨q.removeOldest, rfl, h.removeOldest⟩

end Steps

theorem insert_ne_EINVAL (q q' : QueueMapImpl p) (value : Value p) (flags : UInt64)
    : q.insert value flags ≠ some (.error .EINVAL, q') := by
  unfold insert
  split
  . split
    . simp [Option.bind_eq_some_iff]
    . simp
  . simp [Option.bind_eq_some_iff]

theorem elemUpdate_eq_mapPushElem_iff (q : QueueMapImpl p) (value : Option (Value p)) (flags : UInt64)
    : q.elemUpdate value flags = q.mapPushElem value flags
        ↔
      value = none ∨ flags = BPF_ANY ∨ flags = BPF_EXIST := by
  unfold elemUpdate mapPushElem
  cases value with
  | none => simp
  | some value =>
    simp only [reduceCtorEq, false_or]
    split
    next h => simp [insert_ne_EINVAL, h]
    next h =>
      simp only [true_iff]
      by_contra hflags
      rw [not_or] at hflags
      exact h ⟨hflags.1, hflags.1, hflags.2⟩

theorem holds_construct (hvalue : 1 ≤ p.valueSize) (hentries : 1 ≤ p.maxEntries)
    (hfits : p.valueSize.toNat * p.maxEntries.toNat < 2 ^ 32)
    : ∃ q, construct p = some q ∧ q.Holds [] := by
  rw [UInt32.le_iff_toNat_le, UInt32.toNat_one] at hvalue hentries
  have hvalue0 : p.valueSize ≠ 0 := by
    intro heq
    rw [heq] at hvalue
    simp at hvalue
  have hentries0 : p.maxEntries ≠ 0 := by
    intro heq
    rw [heq] at hentries
    simp at hentries
  unfold construct
  rw [if_neg (by simp [hvalue0, hentries0])]
  refine ⟨_, rfl, ?_⟩
  constructor
  . exact hentries
  . exact hfits
  . dsimp only
    rw [UInt32.toNat_mul, Nat.mod_eq_of_lt]
    rw [Nat.mul_comm]
    exact hfits
  . exact hentries
  . exact (Nat.zero_mod _).symm
  . exact Nat.zero_le _
  . rfl

theorem calls_eq_fifo (p : Params) (hvalue : 1 ≤ p.valueSize) (hentries : 1 ≤ p.maxEntries)
    (hfits : p.valueSize.toNat * p.maxEntries.toNat < 2 ^ 32)
    : ∃ q, construct p = some q
        ∧ ∀ calls, Run.outputs call q calls = some (Run.outputsTotal Fifo.call [] calls) := by
  rcases holds_construct hvalue hentries hfits with ⟨q, hconstruct, h⟩
  refine ⟨q, hconstruct, ?_⟩
  intro calls
  apply Run.outputs_eq_of_simulation (R := Holds)
  . intro q s c h
    exact h.call c
  . exact h

theorem calls_eq_fifo_twoEntries : let p : Params := ⟨1, 2⟩
      let value (b : UInt8) : Value p := .replicate 1 b
      ∃ q, construct p = some q
        ∧ Run.outputs call q [.push (value 1) .any, .push (value 2) .any, .push (value 3) .any,
              .update (value 3) .exist, .pop, .lookup, .delete, .pop]
            = some [.done, .done, .failure .E2BIG, .done, .value [2], .value [3], .done,
              .failure .ENOENT] := by
  intro p value
  rcases calls_eq_fifo p (by decide) (by decide) (by decide) with ⟨q, hconstruct, hcalls⟩
  refine ⟨q, hconstruct, ?_⟩
  rw [hcalls]
  decide

end QueueMapImpl

end Bpftime.Queue
