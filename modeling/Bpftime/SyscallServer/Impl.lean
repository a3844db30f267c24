import Bpftime.Data.Calls
import Bpftime.Epoll.Impl

namespace Bpftime.SyscallServer

open Shm (BpftimeShm CString)

inductive Sysno where
  | dup3
  | memfdCreate
  deriving DecidableEq, Repr

inductive OrigCall where
  | epollWait (epfd : Int32) (evt : UInt64) (maxevents timeout : Int32)
  | munmap (addr size : UInt64)
  | mmap (addr length : UInt64) (prot flags fd : Int32) (offset : Int64)
  | syscall (sysno : Sysno) (args : List Int64)
  deriving DecidableEq, Repr

@[reducible]
def OrigCall.Ret : OrigCall → Type
  | .epollWait _ _ _ _ => Int32
  | .munmap _ _ => Int32
  | .mmap _ _ _ _ _ _ => UInt64
  | .syscall _ _ => Int64

inductive Value where
  | int (v : Int32)
  | ptr (v : UInt64)
  deriving DecidableEq, Repr

structure Server where
  env : Shm.Env
  maxFdCount : ℕ
  /-- What `open_fake_fd` returns. -/
  fake : Int32
  /-- The string behind a pointer. -/
  cstring : UInt64 → CString
  ringbufConsumerPage : Int32 → UInt64
  ringbufProducerPage : Int32 → UInt64
  arrayMapRawData : Int32 → UInt64
  softwarePerfEventRawBuffer : Int32 → UInt64 → UInt64
  world : Epoll.World
  sigmask : Epoll.SigSet
  /-- The iterations of `bpftime_epoll_wait` that are looked at. -/
  fuel : ℕ

structure SyscallContext where
  enableMock : Bool
  runWithKernel : Bool
  initializingCuda : Bool
  enableMockAfterInitialized : Bool
  mockedMmapValues : List UInt64
  shm : Option BpftimeShm

abbrev Handling := Calls OrigCall OrigCall.Ret (Option Value × SyscallContext)

def PROT_READ : Int32 := 1

def PROT_WRITE : Int32 := 2

def MAP_ANONYMOUS : Int32 := 0x20

def isRingbufMap (s : BpftimeShm) (fd : Int32) : Bool :=
  match s.slot? fd with
  | some (.map h) => h.type = .ringbuf
  | _ => false

def isArrayMap (s : BpftimeShm) (fd : Int32) : Bool :=
  match s.slot? fd with
  | some (.map h) => h.type = .array
  | _ => false

def isSoftwarePerfEvent (s : BpftimeShm) (fd : Int32) : Bool :=
  match s.slot? fd with
  | some (.perfEvent h) => h.type = Shm.PERF_TYPE_SOFTWARE
  | _ => false

namespace SyscallContext

def table (ctx : SyscallContext) : BpftimeShm := ctx.shm.getD ⟨[], []⟩

def startUp (srv : Server) (ctx : SyscallContext) : SyscallContext :=
  match ctx.shm with
  | some _ => ctx
  | none => { ctx with shm := some (.construct srv.maxFdCount) }

def tryStartup (srv : Server) (ctx : SyscallContext) : SyscallContext :=
  let ctx := { ctx with enableMock := false }
  let ctx := ctx.startUp srv
  { ctx with enableMock := true }

def disabled (ctx : SyscallContext) : Bool :=
  !ctx.enableMock || ctx.runWithKernel || ctx.initializingCuda || !ctx.enableMockAfterInitialized

def mockedPage (srv : Server) (ctx : SyscallContext) (length : UInt64) (prot fd : Int32) : UInt64 :=
  if fd ≠ -1 && isRingbufMap ctx.table fd then
    if prot = (PROT_WRITE ||| PROT_READ) then
      srv.ringbufConsumerPage fd
    else if prot = PROT_READ then
      srv.ringbufProducerPage fd
    else
      0
  else if fd ≠ -1 && isArrayMap ctx.table fd then
    srv.arrayMapRawData fd
  else if fd ≠ -1 && isSoftwarePerfEvent ctx.table fd then
    srv.softwarePerfEventRawBuffer fd length
  else
    0

def handleMmap64 (srv : Server) (ctx : SyscallContext) (addr length : UInt64)
    (prot flags fd : Int32) (offset : Int64) : Handling :=
  if !ctx.enableMock || ctx.runWithKernel || ctx.initializingCuda then
    .call (.mmap addr length prot flags fd offset) fun r => .done (some (.ptr r), ctx)
  else
    let ctx := ctx.tryStartup srv
    let ptr := ctx.mockedPage srv length prot fd
    if ptr ≠ 0 then
      .done (some (.ptr ptr), { ctx with mockedMmapValues := ctx.mockedMmapValues.insert ptr })
    else
      -- an anonymous mapping is made first and its address dropped
      .call (.mmap addr length (prot ||| PROT_WRITE) (flags ||| MAP_ANONYMOUS) (-1) 0) fun _ =>
        .call (.mmap addr length prot flags fd offset) fun r => .done (some (.ptr r), ctx)

def handleMmap (srv : Server) (ctx : SyscallContext) (addr length : UInt64)
    (prot flags fd : Int32) (offset : Int64) : Handling :=
  if ctx.disabled then
    .call (.mmap addr length prot flags fd offset) fun r => .done (some (.ptr r), ctx)
  else
    (ctx.tryStartup srv).handleMmap64 srv addr length prot flags fd offset

def bpftimeEpollWait (srv : Server) (ctx : SyscallContext) (epfd maxevents timeout : Int32)
    : Option Value :=
  (Epoll.bpftimeEpollWait ctx.table srv.world srv.sigmask epfd maxevents.toInt timeout.toInt
    srv.fuel).map fun res => .int (.ofInt res.ret)

def handleEpollWait (srv : Server) (ctx : SyscallContext) (epfd : Int32) (evt : UInt64)
    (maxevents timeout : Int32) : Handling :=
  let mocked :=
    let ctx := ctx.tryStartup srv
    if Epoll.isEpollFd ctx.table epfd then
      .done (ctx.bpftimeEpollWait srv epfd maxevents timeout, ctx)
    else
      .call (.epollWait epfd evt maxevents timeout) fun r => .done (some (.int r), ctx)
  if ctx.disabled then
    -- the handler does not return here
    .call (.epollWait epfd evt maxevents timeout) fun _ => mocked
  else
    mocked

def handleMunmap (srv : Server) (ctx : SyscallContext) (addr size : UInt64) : Handling :=
  let mocked :=
    let ctx := ctx.tryStartup srv
    if addr ∈ ctx.mockedMmapValues then
      .done (some (.int 0), { ctx with mockedMmapValues := ctx.mockedMmapValues.erase addr })
    else
      .call (.munmap addr size) fun r => .done (some (.int r), ctx)
  if ctx.disabled then
    -- nor here
    .call (.munmap addr size) fun _ => mocked
  else
    mocked

def returned (ctx : SyscallContext) : Option (Shm.Outcome × BpftimeShm) → Handling
  | some (.ret r _, shm) => .done (some (.int r), { ctx with shm := some shm })
  | some (.thrown, shm) => .done (none, { ctx with shm := some shm })
  | none => .done (none, ctx)

def handleDup3 (srv : Server) (ctx : SyscallContext) (oldfd newfd flags : Int32) : Handling :=
  let orig (ctx : SyscallContext) : Handling :=
    .call (.syscall .dup3 [oldfd.toInt64, newfd.toInt64, flags.toInt64]) fun r =>
      .done (some (.int r.toInt32), ctx)
  if ctx.disabled then
    orig ctx
  else
    let ctx := ctx.tryStartup srv
    if ctx.table.isMapFd oldfd then
      ctx.returned (ctx.table.dupBpfMap srv.env srv.fake oldfd newfd)
    else
      orig ctx

def handleMemfdCreate (srv : Server) (ctx : SyscallContext) (name : UInt64) (flags : Int32)
    : Handling :=
  if ctx.disabled then
    -- the number is that of another system call
    .call (.syscall .dup3 [name.toInt64, flags.toInt64]) fun r => .done (some (.int r.toInt32), ctx)
  else
    let ctx := ctx.tryStartup srv
    ctx.returned (ctx.table.addMemfdHandler srv.env srv.fake (srv.cstring name) flags)

end SyscallContext

inductive Request where
  | epollWait (epfd : Int32) (evt : UInt64) (maxevents timeout : Int32)
  | munmap (addr size : UInt64)
  | mmap (addr length : UInt64) (prot flags fd : Int32) (offset : Int64)
  | mmap64 (addr length : UInt64) (prot flags fd : Int32) (offset : Int64)
  | dup3 (oldfd newfd flags : Int32)
  | memfdCreate (name : UInt64) (flags : Int32)
  deriving DecidableEq, Repr

def SyscallContext.handle (srv : Server) (ctx : SyscallContext) : Request → Handling
  | .epollWait epfd evt maxevents timeout => ctx.handleEpollWait srv epfd evt maxevents timeout
  | .munmap addr size => ctx.handleMunmap srv addr size
  | .mmap addr length prot flags fd offset => ctx.handleMmap srv addr length prot flags fd offset
  | .mmap64 addr length prot flags fd offset =>
    ctx.handleMmap64 srv addr length prot flags fd offset
  | .dup3 oldfd newfd flags => ctx.handleDup3 srv oldfd newfd flags
  | .memfdCreate name flags => ctx.handleMemfdCreate srv name flags

end Bpftime.SyscallServer
