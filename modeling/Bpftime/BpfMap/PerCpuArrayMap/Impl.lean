import Bpftime.Basic
import Bpftime.Data.ByteMem

namespace Bpftime.PerCpuArrayMap

structure Params where
  valueSize : UInt32
  maxEntries : UInt32
  /-- What the constructor gets from `sysconf`. -/
  ncpu : UInt32

structure PerCpuArrayMapImpl (p : Params) where
  data : ByteMem

-- The length is a product of 32-bit numbers.
def construct (p : Params) : PerCpuArrayMapImpl p where
  data := .zeroed (p.maxEntries * p.ncpu * p.valueSize).toNat

def dataAt (p : Params) (idx cpu : UInt64) : Nat :=
  let ncpu := p.ncpu.toInt32.toInt64.toUInt64
  (idx * p.valueSize.toUInt64 * ncpu + cpu * p.valueSize.toUInt64).toNat

end Bpftime.PerCpuArrayMap
