import Bpftime.BpfMap.Ringbuf.Impl
import Bpftime.PerfEvent.Impl
import Bpftime.Shm.Impl

namespace Bpftime.Epoll

structure MappedRingbuf (p : RingbufMap.Params) where
  ringbuf : RingbufMap.Ringbuf
  readable : (RingbufMap.hasData p ringbuf).isSome = true

def MappedRingbuf.hasData {p : RingbufMap.Params} (rb : MappedRingbuf p) : Bool :=
  (RingbufMap.hasData p rb.ringbuf).get rb.readable

inductive FilePtr where
  | softwarePerfEvent (ptr : Option PerfEvent.SoftwarePerfEventData)
  | ringbuf (p : RingbufMap.Params) (ptr : Option (MappedRingbuf p))

structure EpollFile where
  file : FilePtr
  data : UInt64

structure EpollEvent where
  events : UInt32
  data : UInt64
  deriving DecidableEq, Repr

def EPOLLIN : UInt32 := 1

def SIGINT : Nat := 2

def SIGTERM : Nat := 15

abbrev SigSet := Nat → Bool

def toBlock : SigSet := fun sig => sig = SIGINT || sig = SIGTERM

def SigSet.block (mask : SigSet) (set : SigSet) : SigSet := fun sig => mask sig || set sig

def SigSet.unblock (mask : SigSet) (set : SigSet) : SigSet := fun sig => mask sig && !set sig

structure Moment where
  /-- The milliseconds since the call, by a clock that may be set back. -/
  elapsed : Int
  files : List EpollFile
  /-- What `sigtimedwait` returns, if the iteration gets to it. -/
  signal : Int32

structure World where
  /-- Whether the first `sigprocmask` succeeds. -/
  blocks : Bool
  moment : Nat → Moment

inductive WaitErrno where
  | EINVAL
  | EINTR
  deriving DecidableEq, Repr

structure Returned where
  ret : Int
  errno : Option WaitErrno
  outEvts : List EpollEvent
  sigmask : SigSet
  /-- The signal whose handler has been called. -/
  handled : Option Int32

def FilePtr.hasData : FilePtr → Bool
  | .softwarePerfEvent (some ptr) => ptr.hasData
  | .softwarePerfEvent none => false
  | .ringbuf _ (some ptr) => ptr.hasData
  | .ringbuf _ none => false

def EpollFile.event (f : EpollFile) : EpollEvent := ⟨EPOLLIN, f.data⟩

def scanFile (maxEvt : Int) (outEvts : List EpollEvent) (f : EpollFile) : List EpollEvent :=
  if f.file.hasData ∧ outEvts.length < maxEvt then outEvts ++ [f.event] else outEvts

def scan (maxEvt : Int) (files : List EpollFile) (outEvts : List EpollEvent) : List EpollEvent :=
  files.foldl (scanFile maxEvt) outEvts

def waitLoop (w : World) (maxEvt timeout : Int) (origSigset : SigSet)
    : Nat → Nat → List EpollEvent → SigSet → Option Returned
  | 0, _, _, _ => none
  | fuel + 1, i, outEvts, sigmask =>
    if outEvts.length < maxEvt then
      if timeout = 0 then
        -- returns from inside the loop, without the original mask
        some ⟨0, none, outEvts, sigmask, none⟩
      else if timeout > 0 ∧ (w.moment i).elapsed > timeout then
        some ⟨outEvts.length, none, outEvts, origSigset, none⟩
      else
        let outEvts := scan maxEvt (w.moment i).files outEvts
        if outEvts.length > 0 then
          waitLoop w maxEvt timeout origSigset fuel (i + 1) outEvts sigmask
        else
          let sigmask := sigmask.unblock toBlock
          if (w.moment i).signal > 0 then
            some ⟨-1, some .EINTR, outEvts, origSigset, some (w.moment i).signal⟩
          else
            waitLoop w maxEvt timeout origSigset fuel (i + 1) outEvts (sigmask.block toBlock)
    else
      some ⟨outEvts.length, none, outEvts, origSigset, none⟩

def isEpollFd (shm : Shm.BpftimeShm) (fd : Int32) : Bool := shm.holds .epoll fd

def bpftimeEpollWait (shm : Shm.BpftimeShm) (w : World) (sigmask : SigSet) (fd : Int32)
    (maxEvt timeout : Int) (fuel : Nat) : Option Returned :=
  if timeout < -1 then
    some ⟨-1, some .EINVAL, [], sigmask, none⟩
  else if !isEpollFd shm fd then
    some ⟨-1, some .EINVAL, [], sigmask, none⟩
  else if !w.blocks then
    some ⟨-1, some .EINVAL, [], sigmask, none⟩
  else
    waitLoop w maxEvt timeout sigmask fuel 0 [] (sigmask.block toBlock)

end Bpftime.Epoll
