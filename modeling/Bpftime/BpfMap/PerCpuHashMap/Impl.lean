import Bpftime.Basic
import Bpftime.Data.Bytes
import Mathlib.Data.List.AList

namespace Bpftime.PerCpuHashMap

structure Params where
  keySize : UInt32
  valueSize : UInt32
  ncpu : UInt32
  ncpu_pos : 0 < ncpu
  maxEntries : UInt32

namespace Params

def totalSize (p : Params) : UInt32 := p.valueSize * p.ncpu

def slotStart (p : Params) (cpu : UInt32) : UInt32 := cpu * p.valueSize

end Params

variable {p : Params}

abbrev Key (p : Params) := Vector UInt8 p.keySize.toNat

abbrev Value (p : Params) := Vector UInt8 p.valueSize.toNat

abbrev FullValue (p : Params) := { l : List UInt8 // l.length = p.totalSize.toNat }

def valueTemplate (p : Params) : FullValue p :=
  ⟨List.replicate p.totalSize.toNat 0, List.length_replicate⟩

namespace FullValue

def copyAt (v : FullValue p) (cpu : UInt32) (value : Value p) : Option (FullValue p) :=
  if h : (p.slotStart cpu).toNat + p.valueSize.toNat ≤ p.totalSize.toNat then
    some ⟨Bytes.overwrite v.1 (p.slotStart cpu).toNat value.toList, by
      rw [Bytes.length_overwrite _ _ _ (by simpa [v.2] using h)]
      exact v.2⟩
  else
    none

def fillBefore (v : FullValue p) (cpu : UInt32) : Option (FullValue p) :=
  if h : (p.slotStart cpu).toNat ≤ p.totalSize.toNat then
    some ⟨Bytes.overwrite v.1 0 (List.replicate (p.slotStart cpu).toNat 0), by
      rw [Bytes.length_overwrite _ _ _ (by simpa [v.2] using h)]
      exact v.2⟩
  else
    none

end FullValue

structure PerCpuHashMapImpl (p : Params) where
  impl : AList (fun _ : Key p => FullValue p)

def construct (p : Params) : PerCpuHashMapImpl p := ⟨∅⟩

def checkUpdateFlags (flags : UInt64) : Bool :=
  let baseFlags := flags &&& 0xFFFFFFFF
  baseFlags == 0 || baseFlags == 1 || baseFlags == 2

namespace PerCpuHashMapImpl

def size (m : PerCpuHashMapImpl p) : Nat := m.impl.keys.length

abbrev Result (p : Params) (α : Type) := Option (Except Errno α × PerCpuHashMapImpl p)

def elemLookup (m : PerCpuHashMapImpl p) (cpu : UInt32) (key : Option (Key p)) : Result p UInt32 :=
  match key with
  | none => some (.error .ENOENT, m)
  | some key =>
    if cpu < p.ncpu then
      match m.impl.lookup key with
      | some _ =>
        if p.slotStart cpu ≤ p.totalSize then some (.ok (p.slotStart cpu), m) else none
      | none => some (.error .ENOENT, m)
    else
      none

def elemUpdate (m : PerCpuHashMapImpl p) (cpu : UInt32) (key : Key p) (value : Value p)
    (flags : UInt64) : Result p Unit :=
  if !checkUpdateFlags flags then
    some (.error .EINVAL, m)
  else if cpu < p.ncpu then
    match m.impl.lookup key with
    | some full => (full.copyAt cpu value).map fun full => (.ok (), ⟨m.impl.insert key full⟩)
    | none =>
      ((valueTemplate p).copyAt cpu value).map fun full => (.ok (), ⟨m.impl.insert key full⟩)
  else
    none

def elemDelete (m : PerCpuHashMapImpl p) (cpu : UInt32) (key : Key p) : Result p Unit :=
  if cpu < p.ncpu then
    match m.impl.lookup key with
    | some full => (full.fillBefore cpu).map fun full => (.ok (), ⟨m.impl.insert key full⟩)
    | none => some (.ok (), m)
  else
    none

-- The calls from user space assemble their keys in the buffer of CPU 0.

def elemLookupUserspace (m : PerCpuHashMapImpl p) (key : Option (Key p))
    : Except Errno (FullValue p) × PerCpuHashMapImpl p :=
  match key with
  | none => (.error .ENOENT, m)
  | some key =>
    match m.impl.lookup key with
    | some full => (.ok full, m)
    | none => (.error .ENOENT, m)

def elemUpdateUserspace (m : PerCpuHashMapImpl p) (key : Key p) (value : FullValue p)
    (flags : UInt64) : Except Errno Unit × PerCpuHashMapImpl p :=
  if !checkUpdateFlags flags then
    (.error .EINVAL, m)
  else
    let elemExists := (m.impl.lookup key).isSome
    if flags = BPF_NOEXIST ∧ elemExists then
      (.error .EEXIST, m)
    else if flags = BPF_EXIST ∧ !elemExists then
      (.error .ENOENT, m)
    else if !elemExists ∧ m.size = p.maxEntries.toNat then
      (.error .E2BIG, m)
    else
      (.ok (), ⟨m.impl.insert key value⟩)

def elemDeleteUserspace (m : PerCpuHashMapImpl p) (key : Key p)
    : Except Errno Unit × PerCpuHashMapImpl p :=
  match m.impl.lookup key with
  | none => (.error .ENOENT, m)
  | some _ => (.ok (), ⟨m.impl.erase key⟩)

def lookupAndDeleteUserspace (m : PerCpuHashMapImpl p) (key : Key p)
    : Except Errno (FullValue p) × PerCpuHashMapImpl p :=
  match m.impl.lookup key with
  | none => (.error .ENOENT, m)
  | some full => (.ok full, ⟨m.impl.erase key⟩)

end PerCpuHashMapImpl

inductive ProgOp (p : Params) where
  | lookup (key : Option (Key p))
  | update (key : Key p) (value : Value p) (flags : UInt64)
  | delete (key : Key p)

inductive Op (p : Params) where
  | prog (cpu : UInt32) (op : ProgOp p)
  | lookupUserspace (key : Option (Key p))
  | updateUserspace (key : Key p) (value : FullValue p) (flags : UInt64)
  | deleteUserspace (key : Key p)
  | lookupAndDeleteUserspace (key : Key p)

namespace PerCpuHashMapImpl

def progStep (m : PerCpuHashMapImpl p) (cpu : UInt32) : ProgOp p → Option (PerCpuHashMapImpl p)
  | .lookup key => (m.elemLookup cpu key).map Prod.snd
  | .update key value flags => (m.elemUpdate cpu key value flags).map Prod.snd
  | .delete key => (m.elemDelete cpu key).map Prod.snd

def step (m : PerCpuHashMapImpl p) : Op p → Option (PerCpuHashMapImpl p)
  | .prog cpu op => m.progStep cpu op
  | .lookupUserspace key => some (m.elemLookupUserspace key).2
  | .updateUserspace key value flags => some (m.elemUpdateUserspace key value flags).2
  | .deleteUserspace key => some (m.elemDeleteUserspace key).2
  | .lookupAndDeleteUserspace key => some (m.lookupAndDeleteUserspace key).2

end PerCpuHashMapImpl

end Bpftime.PerCpuHashMap
