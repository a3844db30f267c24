import Bpftime.Basic
import Bpftime.Data.ByteMem

namespace Bpftime.Queue

structure Params where
  valueSize : UInt32
  maxEntries : UInt32

abbrev Value (p : Params) := Vector UInt8 p.valueSize.toNat

structure QueueMapImpl (p : Params) where
  data : ByteMem
  head : UInt32
  tail : UInt32
  count : UInt32

def construct (p : Params) : Option (QueueMapImpl p) :=
  if p.valueSize = 0 ∨ p.maxEntries = 0 then
    none
  else
    some
      { data := ⟨(p.maxEntries * p.valueSize).toNat, fun _ => 0⟩
        head := 0
        tail := 0
        count := 0 }

variable {p : Params}

namespace QueueMapImpl

def isFull (q : QueueMapImpl p) : Bool := q.count ≥ p.maxEntries

def isEmpty (q : QueueMapImpl p) : Bool := q.count = 0

def nextIndex (p : Params) (index : UInt32) : UInt32 := (index + 1) % p.maxEntries

def offset (p : Params) (index : UInt32) : Nat := (index * p.valueSize).toNat

-- The pointer is an offset into the buffer.
def elemLookup (q : QueueMapImpl p) : Except Errno Nat :=
  if q.isEmpty then .error .ENOENT else .ok (offset p q.head)

def removeOldest (q : QueueMapImpl p) : QueueMapImpl p :=
  { q with head := nextIndex p q.head, count := q.count - 1 }

def append (q : QueueMapImpl p) (value : Value p) : Option (QueueMapImpl p) := do
  let data ← q.data.store (offset p q.tail) value.toList
  return { q with data := data, tail := nextIndex p q.tail, count := q.count + 1 }

def insert (q : QueueMapImpl p) (value : Value p) (flags : UInt64)
    : Option (Except Errno Unit × QueueMapImpl p) :=
  if q.isFull then
    if flags = BPF_EXIST then do
      return (.ok (), ← q.removeOldest.append value)
    else
      some (.error .E2BIG, q)
  else do
    return (.ok (), ← q.append value)

def elemUpdate (q : QueueMapImpl p) (value : Option (Value p)) (flags : UInt64)
    : Option (Except Errno Unit × QueueMapImpl p) :=
  match value with
  | none => some (.error .EINVAL, q)
  | some value => q.insert value flags

def elemDelete (q : QueueMapImpl p) : Except Errno Unit × QueueMapImpl p :=
  if q.isEmpty then (.error .ENOENT, q) else (.ok (), q.removeOldest)

def mapGetNextKey (_q : QueueMapImpl p) : Errno := .EINVAL

def mapPushElem (q : QueueMapImpl p) (value : Option (Value p)) (flags : UInt64)
    : Option (Except Errno Unit × QueueMapImpl p) :=
  match value with
  | none => some (.error .EINVAL, q)
  | some value =>
    if flags ≠ 0 ∧ flags ≠ BPF_ANY ∧ flags ≠ BPF_EXIST then
      some (.error .EINVAL, q)
    else
      q.insert value flags

def mapPeekElem (q : QueueMapImpl p) (hasValue : Bool) : Option (Except Errno (List UInt8)) :=
  if !hasValue then
    some (.error .EINVAL)
  else if q.isEmpty then
    some (.error .ENOENT)
  else do
    return .ok (← q.data.load (offset p q.head) p.valueSize.toNat)

def mapPopElem (q : QueueMapImpl p) (hasValue : Bool)
    : Option (Except Errno (List UInt8) × QueueMapImpl p) :=
  if !hasValue then
    some (.error .EINVAL, q)
  else if q.isEmpty then
    some (.error .ENOENT, q)
  else do
    return (.ok (← q.data.load (offset p q.head) p.valueSize.toNat), q.removeOldest)

end QueueMapImpl

end Bpftime.Queue
