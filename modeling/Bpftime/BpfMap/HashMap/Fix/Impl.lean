import Bpftime.Basic
import Bpftime.BpfMap.HashMap.Lemmas.Count

namespace Bpftime.HashMap

variable {p : Params}

namespace BpftimeHashMap

def valuePtr (p : Params) (index : Nat) : Nat := p.getElemOffset index + 4 + p.keySize

-- `none` is the `size_t` `-1`.
def getIndexOfValue (_ : BpftimeHashMap p) (value : Nat) : Option Nat :=
  if value ≥ p.bufferSize then
    none
  else
    some (value / p.elemSize)

end BpftimeHashMap

/-- The attributes of a BPF hash map. -/
structure Attr where
  maxEntries : UInt32
  keySize : UInt32
  valueSize : UInt32
  fits : nextPrime maxEntries.toNat
    * Sizes.elemSize ⟨maxEntries.toNat, keySize.toNat, valueSize.toNat⟩ < 2 ^ 64

def Attr.params (a : Attr) : Params :=
  ⟨⟨a.maxEntries.toNat, a.keySize.toNat, a.valueSize.toNat⟩, a.fits⟩

structure FixSizeHashMapImpl (p : Params) where
  mapImpl : BpftimeHashMap p
  numBuckets : Nat

namespace FixSizeHashMapImpl

open BpftimeHashMap (valuePtr getIndexOfValue)

def construct (p : Params) : FixSizeHashMapImpl p where
  mapImpl := HashMap.construct p
  numBuckets := p.numBuckets

def elemLookup (m : FixSizeHashMapImpl p) (key : Key p) : Option Nat :=
  (m.mapImpl.elemLookup key).map (valuePtr p)

def elemUpdate (m : FixSizeHashMapImpl p) (key : Key p) (value : Value p) (_flags : UInt64)
    : Int × FixSizeHashMapImpl p :=
  (0, { m with mapImpl := (m.mapImpl.elemUpdate key value).2 })

def elemDelete (m : FixSizeHashMapImpl p) (key : Key p) : Int × FixSizeHashMapImpl p :=
  (0, { m with mapImpl := (m.mapImpl.elemDelete key).2 })

def firstKeyFrom (m : FixSizeHashMapImpl p) (start : Nat) : Except Errno (Key p) :=
  let slots := List.range' start (m.numBuckets - start)
  match slots.find? (fun i => !m.mapImpl.isEmpty i) with
  | some i => .ok (m.mapImpl.getKey i)
  | none => .error .ENOENT

def mapGetNextKey (m : FixSizeHashMapImpl p) (key : Option (Key p)) (hasNextKey : Bool)
    : Except Errno (Key p) :=
  if !hasNextKey then
    .error .EINVAL
  else
    match key with
    | none => m.firstKeyFrom 0
    | some key =>
      match m.elemLookup key with
      | none => m.firstKeyFrom 0
      | some value =>
        match m.mapImpl.getIndexOfValue value with
        -- `index + 1` wraps to zero
        | none => m.firstKeyFrom 0
        | some index => m.firstKeyFrom (index + 1)

inductive Op (p : Params) where
  | update (key : Key p) (value : Value p) (flags : UInt64)
  | delete (key : Key p)

def step (m : FixSizeHashMapImpl p) : Op p → FixSizeHashMapImpl p
  | .update key value flags => (m.elemUpdate key value flags).2
  | .delete key => (m.elemDelete key).2

structure Sized (m : FixSizeHashMapImpl p) : Prop where
  mapImpl : m.mapImpl.Sized
  numBuckets_eq : m.numBuckets = p.numBuckets

theorem sized_construct : (construct p).Sized := by
  constructor
  . exact BpftimeHashMap.sized_construct
  . rfl

theorem Sized.step {m : FixSizeHashMapImpl p} (h : m.Sized) (op : Op p) : (m.step op).Sized := by
  cases op with
  | update key value flags =>
    constructor
    . exact h.mapImpl.elemUpdate key value
    . exact h.numBuckets_eq
  | delete key =>
    constructor
    . exact h.mapImpl.elemDelete key
    . exact h.numBuckets_eq

theorem Sized.run {m : FixSizeHashMapImpl p} (h : m.Sized) (ops : List (Op p))
    : (ops.foldl FixSizeHashMapImpl.step m).Sized := by
  induction ops generalizing m with
  | nil => exact h
  | cons op ops ih =>
    apply ih
    exact h.step op

end FixSizeHashMapImpl

end Bpftime.HashMap
