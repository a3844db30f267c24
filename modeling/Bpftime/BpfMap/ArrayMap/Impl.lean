import Bpftime.Basic
import Bpftime.Data.ByteMem

namespace Bpftime.ArrayMap

structure Params where
  valueSize : UInt32
  maxEntries : UInt32

structure ArrayMapImpl (p : Params) where
  data : ByteMem

-- The length is a product of 32-bit numbers.
def construct (p : Params) : ArrayMapImpl p where
  data := .zeroed (p.valueSize * p.maxEntries).toNat

variable {p : Params}

def offset (p : Params) (key : UInt32) : Nat := (key * p.valueSize).toNat

namespace ArrayMapImpl

def elemLookup (_m : ArrayMapImpl p) (key : UInt32) : Except Errno Nat :=
  if key ≥ p.maxEntries then .error .ENOENT else .ok (offset p key)

end ArrayMapImpl

end Bpftime.ArrayMap
