import Bpftime.Basic
import Bpftime.Data.UnorderedMap

namespace Bpftime.VarHashMap

inductive Error where
  | EINVAL
  | ENOENT
  | EEXIST
  | E2BIG
  | EPERM
  deriving DecidableEq

def BPF_F_RDONLY : UInt32 := 8

def BPF_F_WRONLY : UInt32 := 16

structure Params where
  keySize : Nat
  valueSize : Nat
  maxEntries : Nat
  flags : UInt32

abbrev Key (p : Params) := Vector UInt8 p.keySize

abbrev Value (p : Params) := Vector UInt8 p.valueSize

-- `key_vec` and `value_vec` are overwritten before every use, so only the table is state.
abbrev VarSizeHashMapImpl (p : Params) := UnorderedMap (Key p) (Value p)

def isGoodUpdateFlag (flags : UInt64) : Bool :=
  flags = BPF_ANY || flags = BPF_EXIST || flags = BPF_NOEXIST

namespace VarSizeHashMapImpl

variable {p : Params}

def elemLookup (m : VarSizeHashMapImpl p) (key : Key p) : Except Error (Value p) :=
  if p.flags &&& BPF_F_WRONLY ≠ 0 then
    .error .EPERM
  else
    match m.find key with
    | some value => .ok value
    | none => .error .ENOENT

def elemUpdate (m : VarSizeHashMapImpl p) (r : Rehash (Key p)) (key : Key p) (value : Value p)
    (flags : UInt64) : Except Error (VarSizeHashMapImpl p) :=
  let elementExists := (m.find key).isSome
  if ¬isGoodUpdateFlag flags then
    .error .EINVAL
  else if flags = BPF_NOEXIST ∧ elementExists then
    .error .EEXIST
  else if flags = BPF_EXIST ∧ ¬elementExists then
    .error .ENOENT
  else if ¬elementExists ∧ m.size = p.maxEntries then
    .error .E2BIG
  else if ¬elementExists ∧ p.flags &&& BPF_F_RDONLY ≠ 0 then
    .error .EPERM
  else
    .ok (m.insertOrAssign r key value)

def lookupAndDelete (m : VarSizeHashMapImpl p) (key : Key p)
    : Except Error (Value p × VarSizeHashMapImpl p) :=
  match m.find key with
  | some value => .ok (value, m.erase key)
  | none => .error .ENOENT

def elemDelete (m : VarSizeHashMapImpl p) (key : Key p) : Except Error (VarSizeHashMapImpl p) :=
  match m.find key with
  | some _ => .ok (m.erase key)
  | none => .error .ENOENT

def keyOrENOENT : Option (Key p) → Except Error (Key p)
  | some key => .ok key
  | none => .error .ENOENT

def mapGetNextKey (m : VarSizeHashMapImpl p) (key : Option (Key p)) : Except Error (Key p) :=
  if p.flags &&& BPF_F_WRONLY ≠ 0 then
    .error .EPERM
  else
    match key with
    | none => keyOrENOENT m.order.head?
    | some key =>
      -- A key that is not stored stands for the first one.
      if (m.find key).isSome then keyOrENOENT (m.after key) else keyOrENOENT m.order.head?

inductive Op (p : Params) where
  | update (r : Rehash (Key p)) (key : Key p) (value : Value p) (flags : UInt64)
  | delete (key : Key p)
  | lookupAndDelete (key : Key p)

def step (m : VarSizeHashMapImpl p) : Op p → VarSizeHashMapImpl p
  | .update r key value flags => (m.elemUpdate r key value flags).toOption.getD m
  | .delete key => (m.elemDelete key).toOption.getD m
  | .lookupAndDelete key => ((m.lookupAndDelete key).map Prod.snd).toOption.getD m

def run (ops : List (Op p)) : VarSizeHashMapImpl p := ops.foldl step .empty

end VarSizeHashMapImpl

end Bpftime.VarHashMap
