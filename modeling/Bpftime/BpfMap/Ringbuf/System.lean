import Bpftime.BpfMap.Ringbuf.Impl
import Bpftime.Data.Run

namespace Bpftime.RingbufMap

variable (p : Params)

inductive Status where
  | busy
  | committed
  | discarded
deriving DecidableEq

structure Record where
  size : UInt64
  fd : Int32
  ptr : Nat
  status : Status
  content : Option (List UInt8)

structure Delivery where
  record : Nat
  sample : Sample

structure State where
  rb : Ringbuf
  consumer : Consumer
  records : List Record
  consumed : Nat
  delivered : List Delivery

inductive Op where
  | reserve (size : UInt64) (fd : Int32)
  | write (record : Nat) (content : List UInt8)
  | submit (record : Nat) (discard : Bool)
  | fetch (err : Int32)

def initial : State := ⟨construct p, .returned 0, [], 0, []⟩

def State.owned (s : State) (record : Nat) : Option Record :=
  s.records[record]?.filter (·.status = .busy)

def step (s : State) : Op → Option State
  | .reserve size fd => do
    match ← reserve p s.rb size fd with
    | .error _ => return s
    | .ok (ptr, rb) => return { s with rb, records := s.records ++ [⟨size, fd, ptr, .busy, none⟩] }
  | .write record content =>
    match s.owned record with
    | none => some s
    | some r =>
      if content.length = r.size.toNat then do
        let buf ← s.rb.rawBuffer.store r.ptr content
        return { s with
          rb := { s.rb with rawBuffer := buf }
          records := s.records.set record { r with content := some content } }
      else
        some s
  | .submit record discard =>
    match s.owned record with
    | none => some s
    | some r => do
      let rb ← submit p s.rb r.ptr discard
      let status := if discard then Status.discarded else Status.committed
      return { s with rb, records := s.records.set record { r with status } }
  | .fetch err => do
    let f ← fetchData p s.rb s.consumer err
    return { s with
      rb := f.rb
      consumer := f.consumer
      consumed := if f.advanced then s.consumed + 1 else s.consumed
      delivered := s.delivered ++ (f.sample.map fun sample => ⟨s.consumed, sample⟩).toList }

end Bpftime.RingbufMap
