import Bpftime.Basic
import Bpftime.Data.ByteMem

namespace Bpftime.RingbufMap

def BPF_RINGBUF_BUSY_BIT : UInt32 := 2147483648
def BPF_RINGBUF_DISCARD_BIT : UInt32 := 1073741824
def BPF_RINGBUF_HDR_SZ : UInt32 := 8

-- The construction is refused unless `max_entries` is a power of two.
structure Params where
  maxEnt : UInt32
  pageSize : Nat
  isPowerOfTwo : ∃ k, maxEnt.toNat = 2 ^ k
  le_pageSize : 4096 ≤ pageSize
  pageSize_le : pageSize ≤ 65536

variable (p : Params)

def roundupLen (len : UInt32) : UInt32 :=
  let len := len <<< 2
  let len := len >>> 2
  let len := len + BPF_RINGBUF_HDR_SZ
  (len + 7) / 8 * 8

structure Ringbuf where
  rawBuffer : ByteMem
  consumerPos : UInt64
  producerPos : UInt64

def mask : UInt32 := p.maxEnt - 1

def data : Nat := p.pageSize * 2

-- The length of the buffer is computed in 32 bits.
def construct : Ringbuf where
  rawBuffer := ⟨(UInt32.ofNat (p.pageSize * 2) + p.maxEnt * 2).toNat, fun _ => 0⟩
  consumerPos := 0
  producerPos := 0

def totalSize (size : UInt64) : UInt64 := (size + BPF_RINGBUF_HDR_SZ.toUInt64 + 7) / 8 * 8

def headerAt (pos : UInt64) : Nat := data p + (pos &&& (mask p).toUInt64).toNat

def reserveCheck (rb : Ringbuf) (size : UInt64) : Except Errno Unit :=
  if size &&& (BPF_RINGBUF_BUSY_BIT ||| BPF_RINGBUF_DISCARD_BIT).toUInt64 ≠ 0 then
    .error .E2BIG
  else
    let availSize := p.maxEnt.toUInt64 - (rb.producerPos - rb.consumerPos)
    if totalSize size > p.maxEnt.toUInt64 then
      .error .E2BIG
    else if availSize < totalSize size then
      .error .ENOSPC
    else
      .ok ()

def reserve (rb : Ringbuf) (size : UInt64) (selfFd : Int32) : Option (Except Errno (Nat × Ringbuf)) :=
  match reserveCheck p rb size with
  | .error e => some (.error e)
  | .ok () => do
    let header := headerAt p rb.producerPos
    let buf ← rb.rawBuffer.store32 header (size ||| BPF_RINGBUF_BUSY_BIT.toUInt64).toUInt32
    let buf ← buf.store32 (header + 4) selfFd.toUInt32
    let ptr := headerAt p (rb.producerPos + BPF_RINGBUF_HDR_SZ.toUInt64)
    return .ok (ptr, ⟨buf, rb.consumerPos, rb.producerPos + totalSize size⟩)

def submit (rb : Ringbuf) (sample : Nat) (discard : Bool) : Option Ringbuf := do
  let hdrOffset :=
    (mask p + 1).toUInt64 + (UInt64.ofNat sample - UInt64.ofNat (data p)) - BPF_RINGBUF_HDR_SZ.toUInt64
  let hdr := headerAt p hdrOffset
  let len ← rb.rawBuffer.load32 hdr
  let newLen := len &&& ~~~BPF_RINGBUF_BUSY_BIT
  let newLen := if discard then newLen ||| BPF_RINGBUF_DISCARD_BIT else newLen
  let buf ← rb.rawBuffer.store32 hdr newLen
  return { rb with rawBuffer := buf }

-- `ptr[-1]` of the submit and discard helpers
def fdBefore (rb : Ringbuf) (sample : Nat) : Option Int32 :=
  (rb.rawBuffer.load32 (sample - 4)).map UInt32.toInt32

inductive Consumer where
  | returned (ret : Int32)
  | outer (consPos : UInt64) (cnt : Int64)
  | inner (consPos prodPos : UInt64) (gotNewData : Bool) (cnt : Int64)

structure Sample where
  addr : Nat
  len : Nat
  bytes : List UInt8

structure Fetched where
  rb : Ringbuf
  consumer : Consumer
  advanced : Bool
  sample : Option Sample

def fetchData (rb : Ringbuf) (c : Consumer) (err : Int32) : Option Fetched :=
  match c with
  | .returned _ => some ⟨rb, .outer rb.consumerPos 0, false, none⟩
  | .outer consPos cnt => some ⟨rb, .inner consPos rb.producerPos false cnt, false, none⟩
  | .inner consPos prodPos gotNewData cnt =>
    if consPos < prodPos then do
      let lenPtr := headerAt p consPos
      let len ← rb.rawBuffer.load32 lenPtr
      if len &&& BPF_RINGBUF_BUSY_BIT ≠ 0 then
        return ⟨rb, .returned cnt.toInt32, false, none⟩
      else
        let consPos := consPos + (roundupLen len).toUInt64
        let rb' := { rb with consumerPos := consPos }
        if len &&& BPF_RINGBUF_DISCARD_BIT = 0 then
          let sample := lenPtr + BPF_RINGBUF_HDR_SZ.toNat
          let bytes ← rb.rawBuffer.load sample len.toNat
          if err < 0 then
            return ⟨rb', .returned err, true, some ⟨sample, len.toNat, bytes⟩⟩
          else
            return ⟨rb', .inner consPos prodPos true (cnt + 1), true, some ⟨sample, len.toNat, bytes⟩⟩
        else
          return ⟨rb', .inner consPos prodPos true cnt, true, none⟩
    else if gotNewData then
      some ⟨rb, .outer consPos cnt, false, none⟩
    else
      some ⟨rb, .returned cnt.toInt32, false, none⟩

def hasData (rb : Ringbuf) : Option Bool :=
  if rb.consumerPos < rb.producerPos then do
    let len ← rb.rawBuffer.load32 (headerAt p rb.consumerPos)
    return len &&& BPF_RINGBUF_BUSY_BIT = 0
  else
    some false

end Bpftime.RingbufMap
