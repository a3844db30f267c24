import Bpftime.BpfMap.GpuArray.Threads

/-!
This module contains the GPU ring buffer: the steps of the output helper on the device and of the
drain on the host. An access whose address is not that of its ring, or not aligned, has no result.
-/

namespace Bpftime.GpuRingbuf

open GpuArray (Launch Thread getGlobalThreadId linear)

structure Params where
  valueSize : ℕ
  maxEntries : ℕ
  threadCount : ℕ
  launch : Launch

structure Slot where
  size : ℕ
  data : List UInt8
  deriving DecidableEq, Repr

structure Ring where
  head : ℕ
  tail : ℕ
  dirty : Bool
  slots : ℕ → Slot

def Ring.setSlot (r : Ring) (k : ℕ) (slot : Slot) : Ring :=
  { r with slots := Function.update r.slots k slot }

namespace Params

def entrySize (p : Params) : ℕ := (p.valueSize + 8) * p.maxEntries + 24

/-- Where the header (`none`) or a slot of ring `i` lies. -/
def place (p : Params) (i : ℕ) : Option ℕ → ℕ
  | none => i * p.entrySize
  | some k => i * p.entrySize + 24 + k * (p.valueSize + 8)

def bufferLength (p : Params) : ℕ := p.entrySize * p.threadCount % 2 ^ 64

def hostOffset (p : Params) (i : ℕ) (slot : Option ℕ) : ℕ := p.place i slot % 2 ^ 64

-- The device keeps both sizes as an `int`.
def onDevice (n : ℕ) : ℕ := (UInt64.ofInt (Int32.ofNat n).toInt).toNat

def deviceEntrySize (p : Params) : ℕ := 24 + onDevice p.maxEntries * (8 + onDevice p.valueSize)

def deviceOffset (p : Params) (t : Thread) : Option ℕ → ℕ
  | none => (getGlobalThreadId p.launch t).toNat * p.deviceEntrySize % 2 ^ 64
  | some k =>
    ((getGlobalThreadId p.launch t).toNat * p.deviceEntrySize + 24
      + k * (8 + onDevice p.valueSize)) % 2 ^ 64

/-- The offset is that of a place of ring `i`, aligned, and the ring lies inside the buffer. -/
def Reaches (p : Params) (offset i : ℕ) (slot : Option ℕ) : Prop :=
  offset = p.place i slot ∧ 8 ∣ p.place i slot ∧ (i + 1) * p.entrySize ≤ p.bufferLength

instance (p : Params) (offset i : ℕ) (slot : Option ℕ) : Decidable (p.Reaches offset i slot) :=
  inferInstanceAs (Decidable (_ ∧ _ ∧ _))

end Params

inductive Device where
  | idle
  | readTail (data : List UInt8)
  | readHead (data : List UInt8) (tail : ℕ)
  | setDirty (data : List UInt8)
  | fetchAdd (data : List UInt8)
  | writeSize (data : List UInt8) (realTail : ℕ)
  | writeData (data : List UInt8) (realTail : ℕ)
  | clearDirty (data : List UInt8)
  deriving DecidableEq, Repr

def Device.writing : Device → Option ℕ
  | .writeSize _ k => some k
  | .writeData _ k => some k
  | _ => none

def Device.step (p : Params) (r : Ring) : Device → Option (Ring × Device × Option (List UInt8))
  | .idle => none
  | .readTail data => some (r, .readHead data r.tail, none)
  | .readHead data tail =>
    if (tail + 2 ^ 64 - r.head) % 2 ^ 64 = Params.onDevice p.maxEntries then
      some (r, .idle, none)
    else
      some (r, .setDirty data, none)
  | .setDirty data => some ({ r with dirty := true }, .fetchAdd data, none)
  | .fetchAdd data =>
    let realTail := r.tail % Params.onDevice p.maxEntries
    some ({ r with tail := (r.tail + 1) % 2 ^ 64 }, .writeSize data realTail, none)
  | .writeSize data k =>
    some (r.setSlot k { r.slots k with size := data.length }, .writeData data k, none)
  | .writeData data k =>
    let slot := { r.slots k with data := data ++ (r.slots k).data.drop data.length }
    some (r.setSlot k slot, .clearDirty data, none)
  | .clearDirty data => some ({ r with dirty := false }, .idle, some data)

inductive Stage where
  | readDirty
  | readHead
  | readTail (head : ℕ)
  | readSlot
  | advance (realHead : ℕ)
  | readSize (realHead : ℕ)
  | callback (realHead size : ℕ)
  deriving DecidableEq, Repr

def Stage.reading : Stage → Option ℕ
  | .readSize k => some k
  | .callback k _ => some k
  | _ => none

inductive After where
  | stay (stage : Stage)
  | next
  | stop

def Stage.step (p : Params) (r : Ring) : Stage → Ring × After × Option (ℕ × List UInt8)
  | .readDirty => if r.dirty then (r, .stop, none) else (r, .stay .readHead, none)
  | .readHead => (r, .stay (.readTail r.head), none)
  | .readTail head => if head ≠ r.tail then (r, .stay .readSlot, none) else (r, .next, none)
  | .readSlot => (r, .stay (.advance (r.head % p.maxEntries)), none)
  | .advance k => ({ r with head := (r.head + 1) % 2 ^ 64 }, .stay (.readSize k), none)
  | .readSize k => (r, .stay (.callback k (r.slots k).size), none)
  | .callback k size => (r, .next, some (size, (r.slots k).data.take size))

structure State where
  rings : ℕ → Ring
  devices : ℕ → Device
  host : Option (ℕ × Stage)
  returned : ℕ → List (List UInt8)
  delivered : ℕ → List (ℕ × List UInt8)

def start (p : Params) : State where
  rings := fun _ => ⟨0, 0, false, fun _ => ⟨0, List.replicate p.valueSize 0⟩⟩
  devices := fun _ => .idle
  host := none
  returned := fun _ => []
  delivered := fun _ => []

inductive Move where
  | call (t : Thread) (data : List UInt8)
  | device (t : Thread)
  | drain
  | host
  deriving DecidableEq

def loop (p : Params) (i : ℕ) : Option (ℕ × Stage) :=
  if i < p.threadCount then some (i, .readDirty) else none

def After.host (p : Params) (i : ℕ) : After → Option (ℕ × Stage)
  | stay stage => some (i, stage)
  | next => loop p (i + 1)
  | stop => none

def step (p : Params) (s : State) : Move → Option State
  | .call t data =>
    let tid := linear p.launch t
    if p.launch.Runs t ∧ data.length ≤ p.valueSize ∧ s.devices tid = .idle then
      some { s with devices := Function.update s.devices tid (.readTail data) }
    else
      none
  | .device t =>
    let tid := linear p.launch t
    let slot := (s.devices tid).writing
    if p.launch.Runs t ∧ p.Reaches (p.deviceOffset t slot) tid slot then do
      let (ring, device, ret) ← (s.devices tid).step p (s.rings tid)
      return { s with
        rings := Function.update s.rings tid ring
        devices := Function.update s.devices tid device
        returned := Function.update s.returned tid (s.returned tid ++ ret.toList) }
    else
      none
  | .drain => if s.host = none then some { s with host := loop p 0 } else none
  | .host => do
    let (i, stage) ← s.host
    if p.Reaches (p.hostOffset i stage.reading) i stage.reading then
      let (ring, after, sample) := stage.step p (s.rings i)
      return { s with
        rings := Function.update s.rings i ring
        host := after.host p i
        delivered := Function.update s.delivered i (s.delivered i ++ sample.toList) }
    else
      none

end Bpftime.GpuRingbuf
