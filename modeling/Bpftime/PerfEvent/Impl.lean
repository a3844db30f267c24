import Bpftime.Data.ByteMem

namespace Bpftime.PerfEvent

structure PerfEventHeader where
  type : UInt32
  misc : UInt16
  size : UInt16

structure PerfSampleRaw where
  header : PerfEventHeader
  size : UInt32

def sizeofPerfSampleRaw : Nat := 12

def PERF_RECORD_SAMPLE : UInt32 := 9

def PerfSampleRaw.encode (head : PerfSampleRaw) : List UInt8 :=
  ByteMem.encode32 head.header.type ++ ByteMem.encode16 head.header.misc
    ++ ByteMem.encode16 head.header.size ++ ByteMem.encode32 head.size

-- The fields are narrower than the `size_t` they are computed from.
def PerfSampleRaw.ofPayload (buf : List UInt8) : PerfSampleRaw where
  header :=
    { type := PERF_RECORD_SAMPLE, misc := 0, size := .ofNat (sizeofPerfSampleRaw + buf.length) }
  size := .ofNat buf.length

structure PerfEventMmapPage where
  dataHead : UInt64
  dataTail : UInt64
  dataOffset : UInt64
  dataSize : UInt64

structure SoftwarePerfEventData where
  pagesize : Nat
  header : PerfEventMmapPage
  data : ByteMem
  copyBuffer : ByteMem

namespace SoftwarePerfEventData

def construct (pagesize : Nat) : SoftwarePerfEventData where
  pagesize
  header := { dataHead := 0, dataTail := 0, dataOffset := .ofNat pagesize, dataSize := 0 }
  data := .zeroed 0
  copyBuffer := .zeroed pagesize

def mmapSize (d : SoftwarePerfEventData) : UInt64 := .ofNat d.data.len

def hasData (d : SoftwarePerfEventData) : Bool := decide (d.header.dataTail ≠ d.header.dataHead)

def popcnt (x : UInt64) : Nat :=
  go 64 x
where
  go : Nat → UInt64 → Nat
    | 0, _ => 0
    | n + 1, x => if x = 0 then 0 else (x &&& 1).toNat + go n (x >>> 1)

def ensureMmapBuffer (d : SoftwarePerfEventData) (bufferSize : UInt64)
    : Bool × SoftwarePerfEventData :=
  if d.pagesize + d.data.len < bufferSize.toNat then
    let dataSize := bufferSize - .ofNat d.pagesize
    let d :=
      { d with
        data := d.data.resize (bufferSize.toNat - d.pagesize)
        header := { d.header with dataSize } }
    (decide (popcnt dataSize = 1), d)
  else
    (true, d)

def availableSize (d : SoftwarePerfEventData) : UInt64 :=
  let availableSize := d.mmapSize - (d.header.dataHead - d.header.dataTail)
  if availableSize = 0 then d.mmapSize else availableSize

-- The space is an `int64_t`, the size a `uint16_t` that the comparison widens.
def drops (d : SoftwarePerfEventData) (buf : List UInt8) : Prop :=
  d.availableSize.toInt64.toInt ≤ (PerfSampleRaw.ofPayload buf).header.size.toNat

instance (d : SoftwarePerfEventData) (buf : List UInt8) : Decidable (d.drops buf) :=
  inferInstanceAs (Decidable (_ ≤ _))

def fillCopyBuffer (d : SoftwarePerfEventData) (buf : List UInt8) : Option SoftwarePerfEventData := do
  let head := PerfSampleRaw.ofPayload buf
  let copySize := head.header.size.toNat
  let copyBuffer := if d.copyBuffer.len ≠ copySize then d.copyBuffer.resize copySize else d.copyBuffer
  let copyBuffer ← copyBuffer.store 0 head.encode
  let copyBuffer ← copyBuffer.store sizeofPerfSampleRaw buf
  return { d with copyBuffer }

def copyRecord (d : SoftwarePerfEventData) (dataHead : UInt64) (copySize : UInt16)
    : Option SoftwarePerfEventData := do
  let start := (dataHead &&& (d.mmapSize - 1)).toNat
  if copySize.toNat + start ≤ d.mmapSize.toNat then
    let data ← d.data.store start (← d.copyBuffer.load 0 copySize.toNat)
    return { d with data }
  else
    let lenFirst := d.mmapSize.toNat - start
    let lenSecond := copySize.toNat - lenFirst
    let data ← d.data.store start (← d.copyBuffer.load 0 lenFirst)
    let data ← data.store 0 (← d.copyBuffer.load lenFirst lenSecond)
    return { d with data }

def storeHead (d : SoftwarePerfEventData) (dataHead : UInt64) (copySize : UInt16)
    : SoftwarePerfEventData :=
  { d with header := { d.header with dataHead := dataHead + copySize.toUInt64 } }

def outputData (d : SoftwarePerfEventData) (buf : List UInt8) : Option SoftwarePerfEventData :=
  if d.drops buf then
    some d
  else do
    let dataHead := d.header.dataHead
    let copySize := (PerfSampleRaw.ofPayload buf).header.size
    let d ← d.fillCopyBuffer buf
    let d ← d.copyRecord dataHead copySize
    return d.storeHead dataHead copySize

end SoftwarePerfEventData

end Bpftime.PerfEvent
