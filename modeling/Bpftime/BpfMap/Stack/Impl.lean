import Bpftime.BpfMap.Queue.Impl

namespace Bpftime.Stack

open Queue (Params Value)

structure StackMapImpl (p : Params) where
  data : List UInt8

def construct (p : Params) : Option (StackMapImpl p) :=
  if p.valueSize = 0 ∨ p.maxEntries = 0 then none else some ⟨[]⟩

variable {p : Params}

namespace StackMapImpl

def getCurrentSize (s : StackMapImpl p) : Nat := s.data.length / p.valueSize.toNat

def isFull (s : StackMapImpl p) : Bool := s.getCurrentSize ≥ p.maxEntries.toNat

def isEmpty (s : StackMapImpl p) : Bool := s.data.isEmpty

def topOffset (s : StackMapImpl p) : Nat := (s.getCurrentSize - 1) * p.valueSize.toNat

def valueAt (s : StackMapImpl p) (offset : Nat) : Option (List UInt8) :=
  if offset + p.valueSize.toNat ≤ s.data.length then
    some ((s.data.drop offset).take p.valueSize.toNat)
  else
    none

def eraseFirst (s : StackMapImpl p) : Option (StackMapImpl p) :=
  if p.valueSize.toNat ≤ s.data.length then some ⟨s.data.drop p.valueSize.toNat⟩ else none

def eraseLast (s : StackMapImpl p) : Option (StackMapImpl p) :=
  if p.valueSize.toNat ≤ s.data.length then
    some ⟨s.data.take (s.data.length - p.valueSize.toNat)⟩
  else
    none

-- The pointer is an offset into the vector.
def elemLookup (s : StackMapImpl p) : Except Errno Nat :=
  if s.isEmpty then .error .ENOENT else .ok s.topOffset

def append (s : StackMapImpl p) (value : Value p) : StackMapImpl p := ⟨s.data ++ value.toList⟩

def insert (s : StackMapImpl p) (value : Value p) (flags : UInt64)
    : Option (Except Errno Unit × StackMapImpl p) :=
  if s.isFull then
    if flags = BPF_EXIST then do
      let s ← s.eraseFirst
      return (.ok (), s.append value)
    else
      some (.error .E2BIG, s)
  else
    some (.ok (), s.append value)

def elemUpdate (s : StackMapImpl p) (value : Option (Value p)) (flags : UInt64)
    : Option (Except Errno Unit × StackMapImpl p) :=
  match value with
  | none => some (.error .EINVAL, s)
  | some value => s.insert value flags

def elemDelete (s : StackMapImpl p) : Option (Except Errno Unit × StackMapImpl p) :=
  if s.isEmpty then
    some (.error .ENOENT, s)
  else do
    return (.ok (), ← s.eraseLast)

def mapGetNextKey (_s : StackMapImpl p) : Errno := .EINVAL

def mapPushElem (s : StackMapImpl p) (value : Option (Value p)) (flags : UInt64)
    : Option (Except Errno Unit × StackMapImpl p) :=
  match value with
  | none => some (.error .EINVAL, s)
  | some value =>
    if flags ≠ 0 ∧ flags ≠ BPF_ANY ∧ flags ≠ BPF_EXIST then
      some (.error .EINVAL, s)
    else
      s.insert value flags

def mapPopElem (s : StackMapImpl p) (hasValue : Bool)
    : Option (Except Errno (List UInt8) × StackMapImpl p) :=
  if !hasValue then
    some (.error .EINVAL, s)
  else if s.isEmpty then
    some (.error .ENOENT, s)
  else do
    let bytes ← s.valueAt s.topOffset
    return (.ok bytes, ← s.eraseLast)

def mapPeekElem (s : StackMapImpl p) (hasValue : Bool) : Option (Except Errno (List UInt8)) :=
  if !hasValue then
    some (.error .EINVAL)
  else if s.isEmpty then
    some (.error .ENOENT)
  else do
    return .ok (← s.valueAt s.topOffset)

end StackMapImpl

end Bpftime.Stack
