import Bpftime.Shm.Handler

/-!
This module contains the handler manager: the table of handlers, and the named containers that the
maps in it construct in the shared segment and destroy.
-/

namespace Bpftime.Shm

structure Env where
  libbpf : Bool
  cuda : Bool
  allowNonBuildinMapTypes : Bool
  /-- Whether the kernel or the GPU gives a map what its constructor asks for. -/
  backed : BpfMapHandler → Bool
  /-- Whether the segment has room for the container of a map when it is constructed. -/
  room : BpfMapHandler → Bool
  /-- What the registered `alloc_map` of a type returns, if it has one. -/
  allocMap : Int32 → CString → BpfMapAttr → Option Int32
  /-- Whether the kernel array with this id can be mapped. -/
  mmapable : UInt32 → Bool

inductive Outcome where
  | ret (r : Int32) (errno : Option Errno)
  | thrown
  deriving DecidableEq, Repr

inductive BpfMapType where
  | hash
  | array
  | progArray
  | perfEventArray
  | percpuHash
  | percpuArray
  | stackTrace
  | lruHash
  | lpmTrie
  | arrayOfMaps
  | queue
  | stack
  | ringbuf
  | bloomFilter
  | kernelUserHash
  | kernelUserArray
  | kernelUserPerfEventArray
  | kernelUserPercpuArray
  | pergputdArrayMap
  | gpuArrayMap
  | gpuRingbufMap
  | other
  deriving DecidableEq, Repr

def BpfMapType.ofInt (type : Int32) : BpfMapType :=
  match type.toInt with
  | 1 => .hash
  | 2 => .array
  | 3 => .progArray
  | 4 => .perfEventArray
  | 5 => .percpuHash
  | 6 => .percpuArray
  | 7 => .stackTrace
  | 9 => .lruHash
  | 11 => .lpmTrie
  | 12 => .arrayOfMaps
  | 22 => .queue
  | 23 => .stack
  | 27 => .ringbuf
  | 30 => .bloomFilter
  | 1001 => .kernelUserHash
  | 1002 => .kernelUserArray
  | 1004 => .kernelUserPerfEventArray
  | 1006 => .kernelUserPercpuArray
  | 1502 => .pergputdArrayMap
  | 1503 => .gpuArrayMap
  | 1527 => .gpuRingbufMap
  | _ => .other

/-- The branches of `map_init`. -/
inductive InitKind where
  | construct
  | refuse
  | nonBuiltin
  deriving DecidableEq, Repr

def BPF_MAP_TYPE_MAX : Int32 := 2048

abbrev Memory := List CString

namespace BpfMapHandler

def type (h : BpfMapHandler) : BpfMapType := .ofInt h.attr.type

def getContainerName (h : BpfMapHandler) : CString := "ebpf_map_fd_".toUTF8.toList ++ h.name

def hasOps (h : BpfMapHandler) : Bool := 0 ≤ h.attr.type && h.attr.type < BPF_MAP_TYPE_MAX

def constructorAccepts (env : Env) (h : BpfMapHandler) : Bool :=
  env.room h && match h.type with
  | .perfEventArray | .progArray => h.attr.keySize == 4 && h.attr.valueSize == 4
  | .queue | .stack | .bloomFilter => h.attr.valueSize != 0 && h.attr.maxEnts != 0
  | .stackTrace => h.attr.keySize == 4 && h.attr.valueSize % 8 == 0
  | .lpmTrie =>
    5 ≤ h.attr.keySize && h.attr.keySize ≤ 260 && h.attr.valueSize != 0 && h.attr.maxEnts != 0
  | .kernelUserHash | .kernelUserArray | .kernelUserPerfEventArray | .kernelUserPercpuArray
  | .pergputdArrayMap | .gpuArrayMap | .gpuRingbufMap => env.backed h
  | _ => true

def construct (env : Env) (h : BpfMapHandler) (memory : Memory) : Outcome × Memory :=
  if h.getContainerName ∈ memory then
    (.thrown, memory)
  else if h.constructorAccepts env then
    (.ret 0 none, h.getContainerName :: memory)
  else
    (.thrown, memory)

def popCnt (maxEnt : UInt32) : Nat := go 32 maxEnt 0
where
  go : Nat → UInt32 → Nat → Nat
  | 0, _, cnt => cnt
  | fuel + 1, maxEnt, cnt =>
    if maxEnt = 0 then cnt else go fuel (maxEnt >>> 1) (cnt + (maxEnt &&& 1).toNat)

def initKind (env : Env) (h : BpfMapHandler) : InitKind :=
  match h.type with
  | .hash | .array | .perfEventArray | .percpuArray | .percpuHash | .queue | .stack
  | .arrayOfMaps | .lruHash | .lpmTrie => .construct
  | .ringbuf => if popCnt h.attr.maxEnts ≠ 1 then .refuse else .construct
  | .bloomFilter => if h.attr.keySize ≠ 0 then .refuse else .construct
  | .kernelUserHash | .kernelUserArray | .kernelUserPerfEventArray | .kernelUserPercpuArray
  | .progArray | .stackTrace => if env.libbpf then .construct else .nonBuiltin
  | .pergputdArrayMap | .gpuArrayMap | .gpuRingbufMap =>
    if env.cuda then .construct else .nonBuiltin
  | .other => .nonBuiltin

def initNonBuiltin (env : Env) (h : BpfMapHandler) (memory : Memory) : Option (Outcome × Memory) :=
  if env.allowNonBuildinMapTypes then
    if h.hasOps then
      some (.ret ((env.allocMap h.attr.type h.name h.attr).getD 0) none, memory)
    else
      none
  else
    some (.ret (-1) none, memory)

def mapInit (env : Env) (h : BpfMapHandler) (memory : Memory) : Option (Outcome × Memory) :=
  match h.initKind env with
  | .construct => some (h.construct env memory)
  | .refuse => some (.ret (-1) none, memory)
  | .nonBuiltin => h.initNonBuiltin env memory

def freesContainer (env : Env) (h : BpfMapHandler) : Bool :=
  match h.type with
  | .hash | .array | .ringbuf | .perfEventArray | .percpuArray | .percpuHash | .stackTrace
  | .queue | .stack | .bloomFilter => true
  | .kernelUserHash | .kernelUserArray | .kernelUserPerfEventArray | .kernelUserPercpuArray
  | .progArray | .lruHash | .lpmTrie => env.libbpf
  | .pergputdArrayMap | .gpuArrayMap | .gpuRingbufMap => env.cuda
  -- an array of maps is constructed, but no branch of `map_free` destroys it
  | .arrayOfMaps | .other => false

def mapFree (env : Env) (h : BpfMapHandler) (memory : Memory) : Option Memory :=
  if h.freesContainer env then
    some (memory.erase h.getContainerName)
  else if h.hasOps then
    some memory
  else
    none

end BpfMapHandler

structure BpftimeShm where
  handlers : List Handler
  segment : Memory

namespace BpftimeShm

def construct (maxFdCount : Nat) : BpftimeShm where
  handlers := List.replicate maxFdCount .unused
  segment := []

def slot? (s : BpftimeShm) (fd : Int32) : Option Handler :=
  if fd < 0 then none else s.handlers[fd.toNatClampNeg]?

def setSlot (s : BpftimeShm) (fd : Int32) (handler : Handler) : BpftimeShm :=
  { s with handlers := s.handlers.set fd.toNatClampNeg handler }

def holds (s : BpftimeShm) (kind : Kind) (fd : Int32) : Bool :=
  (s.slot? fd).map Handler.kind == some kind

def isAllocated (s : BpftimeShm) (fd : Int32) : Bool :=
  match s.slot? fd with
  | none => false
  | some handler => handler.kind != .unused

def findMinimalUnusedIdx (s : BpftimeShm) : Int32 :=
  match (List.range s.handlers.length).find? fun i => !s.isAllocated (.ofNat i) with
  | some i => .ofNat i
  | none => -1

def EEXIST : Int32 := 17

def ENOSPC : Int32 := 28

def ENOTSUP : Int32 := 95

def setHandler (env : Env) (s : BpftimeShm) (fd : Int32) (handler : Handler)
    : Option (Outcome × BpftimeShm) :=
  if s.isAllocated fd then
    some (.ret (-EEXIST) none, s)
  else if handler.kind = .unused then
    some (.ret (-ENOTSUP) none, s)
  else if (s.slot? fd).isNone then
    none
  else
    match handler with
    | .map h =>
      match h.mapInit env s.segment with
      | none => none
      | some (.thrown, memory) => some (.thrown, { s.setSlot fd handler with segment := memory })
      | some (.ret _ _, memory) => some (.ret fd none, { s.setSlot fd handler with segment := memory })
    | _ => some (.ret fd none, s.setSlot fd handler)

def clearLinkAt (p : BpfLinkHandler → Bool) (s : BpftimeShm) (i : Nat) : BpftimeShm :=
  match s.handlers[i]? with
  | some (.link h) => if p h then { s with handlers := s.handlers.set i .unused } else s
  | _ => s

def clearLinks (s : BpftimeShm) (p : BpfLinkHandler → Bool) : BpftimeShm :=
  (List.range s.handlers.length).foldl (clearLinkAt p) s

def release (env : Env) (s : BpftimeShm) (fd : Int32) (handler : Handler) : Option BpftimeShm :=
  match handler with
  | .map h =>
    match h.mapFree env s.segment with
    | none => none
    | some memory => some { s with segment := memory }
  | .perfEvent _ => some (s.clearLinks fun h => h.attachTargetId == fd)
  | .prog _ => some (s.clearLinks fun h => h.progId == fd)
  | _ => some s

def clearIdAt (env : Env) (s : BpftimeShm) (fd : Int32) : Option BpftimeShm :=
  match s.slot? fd with
  | none => some s
  | some handler => (s.release env fd handler).map fun s => s.setSlot fd .unused

end BpftimeShm

end Bpftime.Shm
