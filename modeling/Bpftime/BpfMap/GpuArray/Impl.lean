import Bpftime.Basic
import Mathlib.Data.List.Basic

namespace Bpftime.GpuArray

structure Dim3 where
  x : UInt32
  y : UInt32
  z : UInt32
  deriving DecidableEq

structure Launch where
  gridDim : Dim3
  blockDim : Dim3

structure Thread where
  blockIdx : Dim3
  threadIdx : Dim3
  deriving DecidableEq

-- The additions and products of `unsigned` become an `int`.
def getGlobalThreadId (l : Launch) (t : Thread) : UInt64 :=
  let x := (t.blockIdx.x * l.blockDim.x + t.threadIdx.x).toInt32
  let y := (t.blockIdx.y * l.blockDim.y + t.threadIdx.y).toInt32
  let z := (t.blockIdx.z * l.blockDim.z + t.threadIdx.z).toInt32
  let width := (l.gridDim.x * l.blockDim.x).toInt32
  let height := (l.gridDim.y * l.blockDim.y).toInt32
  z.toInt64.toUInt64 * width.toInt64.toUInt64 * height.toInt64.toUInt64
    + (y * width).toInt64.toUInt64 + x.toInt64.toUInt64

inductive MapType where
  | perGpuTdArray
  | gpuArray
  deriving DecidableEq

structure MapBasicInfo where
  valueSize : Int32
  mapType : MapType
  extraBuffer : UInt64
  maxThreadCount : UInt64

def MapBasicInfo.stride (info : MapBasicInfo) : UInt64 := info.valueSize.toInt64.toUInt64

def arrayMapOffset (l : Launch) (t : Thread) (idx : UInt64) (info : MapBasicInfo) : UInt64 :=
  info.extraBuffer + idx * info.maxThreadCount * info.stride
    + getGlobalThreadId l t * info.stride

def bpfHelperExt0001 (l : Launch) (t : Thread) (info : MapBasicInfo) (key : UInt32) : UInt64 :=
  match info.mapType with
  | .perGpuTdArray => arrayMapOffset l t key.toUInt64 info
  | .gpuArray => info.extraBuffer + key.toUInt64 * info.stride

structure Update where
  dst : UInt64
  size : ℕ
  result : UInt64
  deriving DecidableEq

def simpleMemcpySize (sz : Int32) : ℕ := sz.toInt.toNat

def bpfHelperExt0002 (l : Launch) (t : Thread) (info : MapBasicInfo) (key : UInt32) : Update where
  dst := match info.mapType with
    | .perGpuTdArray => arrayMapOffset l t key.toUInt64 info
    | .gpuArray => info.extraBuffer + key.toUInt64 * info.stride
  size := simpleMemcpySize info.valueSize
  result := 0

structure HostRange where
  offset : UInt64
  size : UInt64
  deriving DecidableEq

structure NvGpuArrayMapImpl where
  valueSize : UInt64
  maxEntries : UInt64
  threadCount : UInt64

namespace NvGpuArrayMapImpl

variable (m : NvGpuArrayMapImpl)

def entrySize : UInt64 := m.threadCount * m.valueSize

def totalBufferSize : UInt64 := m.valueSize * m.maxEntries * m.threadCount

def elemLookup (key : UInt32) : Except Errno HostRange :=
  if key.toUInt64 ≥ m.maxEntries then
    .error .ENOENT
  else
    .ok ⟨key.toUInt64 * m.entrySize, m.entrySize⟩

end NvGpuArrayMapImpl

structure NvGpuSharedArrayMapImpl where
  valueSize : UInt64
  maxEntries : UInt64

namespace NvGpuSharedArrayMapImpl

variable (m : NvGpuSharedArrayMapImpl)

def totalBufferSize : UInt64 := m.valueSize * m.maxEntries

def elemLookup (key : UInt32) : Except Errno HostRange :=
  if key.toUInt64 ≥ m.maxEntries then
    .error .ENOENT
  else
    .ok ⟨key.toUInt64 * m.valueSize, m.valueSize⟩

end NvGpuSharedArrayMapImpl

structure MapAttr where
  type : MapType
  valueSize : UInt32
  maxEnts : UInt32
  gpuThreadCount : UInt32

namespace MapAttr

variable (a : MapAttr)

def perThread : NvGpuArrayMapImpl :=
  ⟨a.valueSize.toUInt64, a.maxEnts.toUInt64, a.gpuThreadCount.toUInt64⟩

def shared : NvGpuSharedArrayMapImpl := ⟨a.valueSize.toUInt64, a.maxEnts.toUInt64⟩

def getGpuMapMaxThreadCount : UInt64 :=
  match a.type with
  | .perGpuTdArray => a.perThread.threadCount
  | .gpuArray => 1

def mapBasicInfo (gpuBuffer : UInt64) : MapBasicInfo where
  valueSize := a.valueSize.toInt32
  mapType := a.type
  extraBuffer := gpuBuffer
  maxThreadCount := a.getGpuMapMaxThreadCount

def elemLookup (key : UInt32) : Except Errno HostRange :=
  match a.type with
  | .perGpuTdArray => a.perThread.elemLookup key
  | .gpuArray => a.shared.elemLookup key

def totalBufferSize : UInt64 :=
  match a.type with
  | .perGpuTdArray => a.perThread.totalBufferSize
  | .gpuArray => a.shared.totalBufferSize

end MapAttr

end Bpftime.GpuArray
