import Bpftime.SyscallServer.Impl

namespace Bpftime.SyscallServer

open Calls (Once)

def Request.original : Request → OrigCall
  | .epollWait epfd evt maxevents timeout => .epollWait epfd evt maxevents timeout
  | .munmap addr size => .munmap addr size
  | .mmap addr length prot flags fd offset => .mmap addr length prot flags fd offset
  | .mmap64 addr length prot flags fd offset => .mmap addr length prot flags fd offset
  | .dup3 oldfd newfd flags => .syscall .dup3 [oldfd.toInt64, newfd.toInt64, flags.toInt64]
  | .memfdCreate name flags => .syscall .memfdCreate [name.toInt64, flags.toInt64]

def Request.result : (req : Request) → req.original.Ret → Value
  | .epollWait _ _ _ _, r => .int r
  | .munmap _ _, r => .int r
  | .mmap _ _ _ _ _ _, r => .ptr r
  | .mmap64 _ _ _ _ _ _, r => .ptr r
  | .dup3 _ _ _, r => .int r.toInt32
  | .memfdCreate _ _, r => .int r.toInt32

namespace SyscallContext

/-- The original call is made once, as it came, and its result returned. -/
def Transparent (srv : Server) (ctx : SyscallContext) (req : Request) : Prop :=
  Once (ctx.handle srv req) req.original Prod.fst fun r => some (req.result r)

def Managed (ctx : SyscallContext) : Request → Prop
  | .epollWait epfd _ _ _ => Epoll.isEpollFd ctx.table epfd = true
  | .munmap addr _ => addr ∈ ctx.mockedMmapValues
  | .mmap _ _ _ _ fd _ | .mmap64 _ _ _ _ fd _ =>
    isRingbufMap ctx.table fd = true ∨ isArrayMap ctx.table fd = true
      ∨ isSoftwarePerfEvent ctx.table fd = true
  | .dup3 oldfd _ _ => ctx.table.isMapFd oldfd = true
  -- there is no descriptor yet, and the one to be made is bpftime's
  | .memfdCreate _ _ => True

/-- The request is about no object of bpftime, or bpftime is disabled. -/
def Foreign (ctx : SyscallContext) (req : Request) : Prop :=
  ctx.disabled = true ∨ ¬ ctx.Managed req

def PassesOn (ctx : SyscallContext) : Request → Prop
  | .epollWait _ _ _ _ | .munmap _ _ => ctx.disabled = false
  | .mmap _ _ _ _ _ _ => ctx.disabled = true
  | .mmap64 _ _ _ _ _ _ =>
    ctx.enableMock = false ∨ ctx.runWithKernel = true ∨ ctx.initializingCuda = true
  | .dup3 _ _ _ => True
  | .memfdCreate _ _ => False

variable {srv : Server} {ctx : SyscallContext}

section startup

theorem shm_tryStartup (ctx : SyscallContext)
    : (ctx.tryStartup srv).shm = some (ctx.shm.getD (.construct srv.maxFdCount)) := by
  unfold tryStartup startUp
  cases ctx.shm with
  | none => rfl
  | some s => rfl

@[simp]
theorem mockedMmapValues_tryStartup (ctx : SyscallContext)
    : (ctx.tryStartup srv).mockedMmapValues = ctx.mockedMmapValues := by
  unfold tryStartup startUp
  cases ctx.shm with
  | none => rfl
  | some s => rfl

theorem disabled_tryStartup (srv : Server) (h : ctx.disabled = false)
    : (ctx.tryStartup srv).enableMock = true
        ∧ (ctx.tryStartup srv).runWithKernel = false
        ∧ (ctx.tryStartup srv).initializingCuda = false := by
  unfold disabled at h
  simp only [Bool.or_eq_false_iff, Bool.not_eq_false'] at h
  unfold tryStartup startUp
  cases ctx.shm with
  | none | some s => exact ⟨rfl, h.1.1.2, h.1.2⟩

theorem holds_construct {kind : Shm.Kind} (h : kind ≠ .unused) (maxFdCount : ℕ) (fd : Int32)
    : (Shm.BpftimeShm.construct maxFdCount).holds kind fd = false := by
  unfold Shm.BpftimeShm.holds Shm.BpftimeShm.slot? Shm.BpftimeShm.construct
  split
  . rfl
  . rw [List.getElem?_replicate]
    split
    . simpa [Shm.Handler.kind] using h.symm
    . rfl

@[simp]
theorem holds_table_tryStartup {kind : Shm.Kind} (h : kind ≠ .unused) (fd : Int32)
    : (ctx.tryStartup srv).table.holds kind fd = ctx.table.holds kind fd := by
  unfold table
  rw [shm_tryStartup, Option.getD_some]
  cases ctx.shm with
  | none =>
    have hempty := holds_construct h 0 fd
    rw [Option.getD_none, Option.getD_none, holds_construct h]
    exact hempty.symm
  | some s => rfl

end startup

instance : Nonempty (Calls.Answers OrigCall OrigCall.Ret) := by
  refine ⟨fun _ c => ?_⟩
  cases c with
  | epollWait => exact (0 : Int32)
  | munmap => exact (0 : Int32)
  | mmap => exact (0 : UInt64)
  | syscall => exact (0 : Int64)

theorem exists_int_ne (v : Option Value) : ∃ r : Int32, v ≠ some (.int r) := by
  by_cases h : v = some (.int 0)
  . refine ⟨1, ?_⟩
    rw [h]
    decide
  . exact ⟨0, h⟩

theorem transparent_epollWait_iff (epfd : Int32) (evt : UInt64) (maxevents timeout : Int32)
    (hforeign : ctx.Foreign (.epollWait epfd evt maxevents timeout))
    : ctx.Transparent srv (.epollWait epfd evt maxevents timeout) ↔ ctx.disabled = false := by
  have hepoll : Epoll.isEpollFd (ctx.tryStartup srv).table epfd = Epoll.isEpollFd ctx.table epfd :=
    holds_table_tryStartup (by decide) epfd
  unfold Transparent handle handleEpollWait
  dsimp only
  rw [hepoll]
  cases hdisabled : ctx.disabled with
  | false =>
    have hmanaged : Epoll.isEpollFd ctx.table epfd = false := by
      rcases hforeign with h | h
      . rw [hdisabled] at h
        contradiction
      . simpa [Managed] using h
    simp only [hmanaged, Bool.false_eq_true, ↓reduceIte, iff_true]
    exact Calls.once_call fun _ => rfl
  | true =>
    simp only [↓reduceIte, Bool.true_eq_false, iff_false]
    split
    . rcases exists_int_ne ((ctx.tryStartup srv).bpftimeEpollWait srv epfd maxevents timeout)
        with ⟨r, hr⟩
      exact Calls.not_once_call_done (Classical.choice inferInstance) (r := r) hr
    . exact Calls.not_once_call_call _

theorem transparent_munmap_iff (addr size : UInt64) (hforeign : ctx.Foreign (.munmap addr size))
    : ctx.Transparent srv (.munmap addr size) ↔ ctx.disabled = false := by
  unfold Transparent handle handleMunmap
  dsimp only
  rw [mockedMmapValues_tryStartup]
  cases hdisabled : ctx.disabled with
  | false =>
    have hmanaged : addr ∉ ctx.mockedMmapValues := by
      rcases hforeign with h | h
      . rw [hdisabled] at h
        contradiction
      . exact h
    simp only [hmanaged, Bool.false_eq_true, ↓reduceIte, iff_true]
    exact Calls.once_call fun _ => rfl
  | true =>
    simp only [↓reduceIte, Bool.true_eq_false, iff_false]
    split
    . rcases exists_int_ne (some (.int 0)) with ⟨r, hr⟩
      exact Calls.not_once_call_done (Classical.choice inferInstance) (r := r) hr
    . exact Calls.not_once_call_call _

theorem transparent_mmap64_iff (addr length : UInt64) (prot flags fd : Int32) (offset : Int64)
    : ctx.Transparent srv (.mmap64 addr length prot flags fd offset)
        ↔
      ctx.enableMock = false ∨ ctx.runWithKernel = true ∨ ctx.initializingCuda = true := by
  unfold Transparent handle handleMmap64
  dsimp only
  split
  . next h =>
    simp only [Bool.or_eq_true, Bool.not_eq_true', or_assoc] at h
    exact iff_of_true (Calls.once_call fun _ => rfl) h
  . next h =>
    simp only [Bool.or_eq_true, Bool.not_eq_true', or_assoc] at h
    apply iff_of_false ?_ h
    split
    . exact Calls.not_once_done _
    . exact Calls.not_once_call_call _

theorem transparent_mmap_iff (addr length : UInt64) (prot flags fd : Int32) (offset : Int64)
    : ctx.Transparent srv (.mmap addr length prot flags fd offset) ↔ ctx.disabled = true := by
  cases hdisabled : ctx.disabled with
  | true =>
    unfold Transparent handle handleMmap
    simp only [hdisabled, ↓reduceIte, iff_true]
    exact Calls.once_call fun _ => rfl
  | false =>
    rcases disabled_tryStartup srv hdisabled with ⟨hmock, hkernel, hcuda⟩
    have heq : ctx.Transparent srv (.mmap addr length prot flags fd offset)
        ↔ (ctx.tryStartup srv).Transparent srv (.mmap64 addr length prot flags fd offset) := by
      unfold Transparent handle handleMmap
      simp only [hdisabled, Bool.false_eq_true, ↓reduceIte]
      exact Iff.rfl
    rw [heq, transparent_mmap64_iff, hmock, hkernel, hcuda]
    decide

theorem transparent_dup3 (oldfd newfd flags : Int32)
    (hforeign : ctx.Foreign (.dup3 oldfd newfd flags))
    : ctx.Transparent srv (.dup3 oldfd newfd flags) := by
  have hmap : (ctx.tryStartup srv).table.isMapFd oldfd = ctx.table.isMapFd oldfd :=
    holds_table_tryStartup (by decide) oldfd
  unfold Transparent handle handleDup3
  dsimp only
  rw [hmap]
  cases hdisabled : ctx.disabled with
  | true => exact Calls.once_call fun _ => rfl
  | false =>
    have hmanaged : ctx.table.isMapFd oldfd = false := by
      rcases hforeign with h | h
      . rw [hdisabled] at h
        contradiction
      . simpa [Managed] using h
    simp only [hmanaged, Bool.false_eq_true, ↓reduceIte]
    exact Calls.once_call fun _ => rfl

theorem not_transparent_memfdCreate (name : UInt64) (flags : Int32)
    (hforeign : ctx.Foreign (.memfdCreate name flags))
    : ¬ ctx.Transparent srv (.memfdCreate name flags) := by
  have hdisabled : ctx.disabled = true := by
    rcases hforeign with h | h
    . exact h
    . exact absurd trivial h
  unfold Transparent handle handleMemfdCreate
  simp only [hdisabled, ↓reduceIte]
  apply Calls.not_once_of_ne
  intro h
  cases h

theorem transparent_iff_passesOn (req : Request) (hforeign : ctx.Foreign req)
    : ctx.Transparent srv req ↔ ctx.PassesOn req := by
  cases req with
  | epollWait epfd evt maxevents timeout => exact transparent_epollWait_iff _ _ _ _ hforeign
  | munmap addr size => exact transparent_munmap_iff _ _ hforeign
  | mmap addr length prot flags fd offset => exact transparent_mmap_iff ..
  | mmap64 addr length prot flags fd offset => exact transparent_mmap64_iff ..
  | dup3 oldfd newfd flags => exact iff_of_true (transparent_dup3 _ _ _ hforeign) trivial
  | memfdCreate name flags =>
    exact iff_of_false (not_transparent_memfdCreate _ _ hforeign) not_false

theorem transparent_foreign_iff (srv : Server) (ctx : SyscallContext) (req : Request)
    : (ctx.Foreign req → ctx.Transparent srv req) ↔ (ctx.Foreign req → ctx.PassesOn req) :=
  imp_congr_right fun hforeign => transparent_iff_passesOn req hforeign

def started (enableMockAfterInitialized : Bool) : SyscallContext where
  enableMock := true
  runWithKernel := false
  initializingCuda := false
  enableMockAfterInitialized
  mockedMmapValues := []
  shm := some ⟨[], []⟩

def plainServer : Server where
  env := ⟨false, false, false, fun _ => false, fun _ => false, fun _ _ _ => none, fun _ => false⟩
  maxFdCount := 8
  fake := 7
  cstring := fun _ => []
  ringbufConsumerPage := fun _ => 0
  ringbufProducerPage := fun _ => 0
  arrayMapRawData := fun _ => 0
  softwarePerfEventRawBuffer := fun _ _ => 0
  world := ⟨true, fun _ => ⟨0, [], 0⟩⟩
  sigmask := fun _ => false
  fuel := 0

def threes : Calls.Answers OrigCall OrigCall.Ret
  | _, .epollWait _ _ _ _ => (3 : Int32)
  | _, .munmap _ _ => (3 : Int32)
  | _, .mmap _ _ _ _ _ _ => (3 : UInt64)
  | _, .syscall _ _ => (3 : Int64)

theorem not_transparent_munmap_mmap64_memfd
    : (Calls.run threes [] ((started false).handle plainServer (.munmap 4096 8))).1
          = [.munmap 4096 8, .munmap 4096 8]
        ∧ ¬ (started false).Transparent plainServer (.munmap 4096 8)
        ∧ (Calls.run threes [] ((started false).handle plainServer (.memfdCreate 64 1))).1
          = [.syscall .dup3 [64, 1]]
        ∧ ¬ (started false).Transparent plainServer (.memfdCreate 64 1)
        ∧ (Calls.run threes [] ((started true).handle plainServer (.mmap64 0 4096 1 2 5 0))).1
          = [.mmap 0 4096 3 0x22 (-1) 0, .mmap 0 4096 1 2 5 0]
        ∧ ¬ (started true).Managed (.mmap64 0 4096 1 2 5 0)
        ∧ ¬ (started true).Transparent plainServer (.mmap64 0 4096 1 2 5 0) := by
  refine ⟨rfl, ?_, rfl, ?_, rfl, ?_, ?_⟩
  . rw [transparent_munmap_iff _ _ (Or.inl rfl)]
    decide
  . exact not_transparent_memfdCreate _ _ (Or.inl rfl)
  . rintro (h | h | h)
    . exact absurd h (by decide)
    . exact absurd h (by decide)
    . exact absurd h (by decide)
  . rw [transparent_mmap64_iff]
    decide

end SyscallContext

end Bpftime.SyscallServer
