import Mathlib.Algebra.Group.Int.Defs
import Mathlib.Data.List.Sort

namespace Bpftime.SyscallTrace

abbrev Args := Vector Int64 6

structure TraceEntry where
  type : UInt16
  flags : UInt8
  preemptCount : UInt8
  pid : Int32
  deriving DecidableEq, Repr

structure TraceEventRawSysEnter where
  ent : TraceEntry
  id : Int64
  args : Vector UInt64 6
  deriving DecidableEq

structure TraceEventRawSysExit where
  ent : TraceEntry
  id : Int64
  ret : Int64
  deriving DecidableEq

inductive Ctx where
  | enter (ctx : TraceEventRawSysEnter)
  | exit (ctx : TraceEventRawSysExit)
  deriving DecidableEq

inductive Override where
  | setRetval (value : UInt64)
  | overrideReturn (ctx value : UInt64)
  deriving DecidableEq, Repr

def Override.ctx : Override → UInt64
  | setRetval _ => 0
  | overrideReturn ctx _ => ctx

def Override.value : Override → UInt64
  | setRetval value => value
  | overrideReturn _ value => value

def Override.error : Override → String
  | setRetval _ => "Called bpftime_set_retval, but no retval callback was set"
  | overrideReturn _ _ => "Called bpftime_override_return, but no retval callback was set"

inductive Prog (ω : Type) where
  | done (err : Int32) (ret : UInt64) (ctx : Ctx)
  | read (k : ω → Prog ω)
  | write (f : ω → ω) (k : Prog ω)
  | call (helper : Override) (k : Prog ω)
  | syscall (nr : Int64) (args : Args) (k : Int64 → Prog ω)

structure AttachEntry (ω : Type) where
  cb : Ctx → Prog ω
  sysNr : Int32
  isEnter : Bool

structure AttachImpl (ω : Type) where
  nextId : ℤ
  heap : ℕ → Option (AttachEntry ω)
  attachEntries : ℤ → Option ℕ
  globalEnterCallbacks : List ℕ
  globalExitCallbacks : List ℕ
  sysEnterCallbacks : ℤ → List ℕ
  sysExitCallbacks : ℤ → List ℕ

def ATTACH_SYSCALL_TRACE : Int32 := 2

def INT_MAX : ℤ := 2 ^ 31 - 1

def EINVAL : ℤ := 22

def ENOENT : ℤ := 2

def ENOTSUP : ℤ := 95

def NR_exit : Int64 := 60

def NR_exit_group : Int64 := 231

structure PrivateData where
  sysNr : Int32
  isEnter : Bool

def insertPtr (p : ℕ) (set : List ℕ) : List ℕ :=
  if p ∈ set then set else set.orderedInsert (· ≤ ·) p

namespace AttachImpl

variable {ω : Type}

def empty : AttachImpl ω where
  nextId := 1
  heap := fun _ => none
  attachEntries := fun _ => none
  globalEnterCallbacks := []
  globalExitCallbacks := []
  sysEnterCallbacks := fun _ => []
  sysExitCallbacks := fun _ => []

def callbacks (s : AttachImpl ω) (isEnter : Bool) (nr : ℤ) : List ℕ :=
  match isEnter, decide (nr = -1) with
  | true, true => s.globalEnterCallbacks
  | true, false => s.sysEnterCallbacks nr
  | false, true => s.globalExitCallbacks
  | false, false => s.sysExitCallbacks nr

def setCallbacks (s : AttachImpl ω) (isEnter : Bool) (nr : ℤ) (set : List ℕ) : AttachImpl ω :=
  match isEnter, decide (nr = -1) with
  | true, true => { s with globalEnterCallbacks := set }
  | true, false => { s with sysEnterCallbacks := Function.update s.sysEnterCallbacks nr set }
  | false, true => { s with globalExitCallbacks := set }
  | false, false => { s with sysExitCallbacks := Function.update s.sysExitCallbacks nr set }

def addEntry (s : AttachImpl ω) (ptr : ℕ) (entry : AttachEntry ω) : AttachImpl ω :=
  { s with
    nextId := s.nextId + 1
    heap := Function.update s.heap ptr (some entry)
    attachEntries := Function.update s.attachEntries s.nextId (some ptr) }

def removeEntry (s : AttachImpl ω) (id : ℤ) (ptr : ℕ) : AttachImpl ω :=
  { s with
    attachEntries := Function.update s.attachEntries id none
    heap := Function.update s.heap ptr none }

def createAttachWithEbpfCallback (s : AttachImpl ω) (cb : Ctx → Prog ω)
    (privateData : Option PrivateData) (attachType : Int32) (ptr : ℕ)
    : Option (ℤ × AttachImpl ω) :=
  if attachType ≠ ATTACH_SYSCALL_TRACE then
    some (-ENOTSUP, s)
  else
    match privateData with
    | none => some (-EINVAL, s)
    | some priv =>
      if priv.sysNr ≥ 512 ∨ priv.sysNr < -1 then
        some (-EINVAL, s)
      else if s.nextId = INT_MAX ∨ (s.heap ptr).isSome then
        none
      else
        let id := s.nextId
        let nr := priv.sysNr.toInt
        let s := s.addEntry ptr { cb, sysNr := priv.sysNr, isEnter := priv.isEnter }
        some (id, s.setCallbacks priv.isEnter nr (insertPtr ptr (s.callbacks priv.isEnter nr)))

def detachById (s : AttachImpl ω) (id : ℤ) : Option (ℤ × AttachImpl ω) :=
  match s.attachEntries id with
  | none => some (-ENOENT, s)
  | some ptr => do
    let entry ← s.heap ptr
    let nr := entry.sysNr.toInt
    let s := s.setCallbacks entry.isEnter nr ((s.callbacks entry.isEnter nr).erase ptr)
    return (0, s.removeEntry id ptr)

end AttachImpl

structure Frame where
  isOverrided : Bool
  userRet : UInt64
  userRetCtx : UInt64
  deriving DecidableEq, Repr

structure Thread (ω : Type) where
  world : ω
  slot : Option ℕ
  frames : ℕ → Frame

inductive Event where
  | ran (ptr : ℕ) (ctx : Ctx)
  | overrode (value : UInt64)
  | executed (nr : Int64) (args : Args) (ret : Int64)
  deriving DecidableEq

inductive Failure where
  | thrown (what : String)
  | undefined
  | outOfFuel
  deriving DecidableEq, Repr

section Dispatch

variable {ω : Type}

abbrev Nested (ω : Type) := Int64 → Args → Thread ω → Except Failure (Int64 × Thread ω)

def Prog.run (nested : Nested ω) : Prog ω → Thread ω → Except Failure (Thread ω × List Event)
  | .done _ _ _, t => .ok (t, [])
  | .read k, t => (k t.world).run nested t
  | .write f k, t => k.run nested { t with world := f t.world }
  | .call helper k, t =>
    match t.slot with
    | none => .error (.thrown helper.error)
    | some d => do
      let (t, log) ← k.run nested
        { t with frames := Function.update t.frames d ⟨true, helper.value, helper.ctx⟩ }
      return (t, .overrode helper.value :: log)
  | .syscall nr args k, t => do
    let (ret, t) ← nested nr args t
    (k ret).run nested t

namespace AttachImpl

def runCallbacks (s : AttachImpl ω) (nested : Nested ω) (ctx : Ctx)
    : List ℕ → Thread ω → Except Failure (Thread ω × List Event)
  | [], t => .ok (t, [])
  | p :: ps, t =>
    match s.heap p with
    | none => .error .undefined
    | some entry => do
      let (t, log) ← (entry.cb ctx).run nested t
      let (t, logs) ← s.runCallbacks nested ctx ps t
      return (t, .ran p ctx :: (log ++ logs))

def runPhase (s : AttachImpl ω) (nested : Nested ω) (isEnter : Bool) (nr : Int64) (ctx : Ctx)
    (t : Thread ω) : Except Failure (Thread ω × List Event) :=
  if s.callbacks isEnter nr.toInt ≠ [] ∨ s.callbacks isEnter (-1) ≠ [] then do
    let (t, log) ← s.runCallbacks nested ctx (s.callbacks isEnter nr.toInt) t
    let (t, logs) ← s.runCallbacks nested ctx (s.callbacks isEnter (-1)) t
    return (t, log ++ logs)
  else
    .ok (t, [])

def enterCtx (nr : Int64) (args : Args) : Ctx :=
  .enter ⟨⟨0, 0, 0, 0⟩, nr, args.map Int64.toUInt64⟩

def exitCtx (nr ret : Int64) : Ctx := .exit ⟨⟨0, 0, 0, 0⟩, nr, ret⟩

def dispatchSyscall (s : AttachImpl ω) (origSyscall : Int64 → Args → ω → Int64 × ω)
    : ℕ → ℕ → Int64 → Args → Thread ω → Except Failure (Int64 × Thread ω × List Event)
  | 0, _, _, _, _ => .error .outOfFuel
  | fuel + 1, d, nr, args, t =>
    if nr = NR_exit_group ∨ nr = NR_exit then
      let (ret, world) := origSyscall nr args t.world
      .ok (ret, { t with world }, [.executed nr args ret])
    else if nr.toInt < 0 ∨ 512 ≤ nr.toInt then
      .error .undefined
    else do
      let nested : Nested ω := fun nr args t => do
        let (ret, t, _) ← s.dispatchSyscall origSyscall fuel (d + 1) nr args t
        return (ret, t)
      let t := { t with frames := Function.update t.frames d ⟨false, 0, 0⟩, slot := some d }
      let (t, enter) ← s.runPhase nested true nr (enterCtx nr args) t
      let t := { t with slot := none }
      if (t.frames d).isOverrided then
        return ((t.frames d).userRet.toInt64, t, enter)
      else
        let t := { t with slot := some d }
        let (ret, world) := origSyscall nr args t.world
        let t := { t with world }
        let (t, exit) ← s.runPhase nested false nr (exitCtx nr ret) t
        let t := { t with slot := none }
        let log := enter ++ .executed nr args ret :: exit
        if (t.frames d).isOverrided then
          return ((t.frames d).userRet.toInt64, t, log)
        else
          return (ret, t, log)

end AttachImpl

end Dispatch

end Bpftime.SyscallTrace
