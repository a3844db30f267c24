import Bpftime.Data.NamedHeap
import Bpftime.Shm.Impl

/-!
This module contains the handler table together with the contents of the containers, and the
operations on maps that reach them through the pointer of a handler.
-/

namespace Bpftime.Shm

/-- Where the contents of a map are. -/
inductive Target where
  | container
  | kernel
  | registered
  deriving DecidableEq, Repr

namespace BpfMapHandler

def target (env : Env) (h : BpfMapHandler) : Target :=
  match h.type with
  | .kernelUserHash | .kernelUserPercpuArray => if env.libbpf then .kernel else .registered
  | .kernelUserArray =>
    -- an array that cannot be mapped is replaced by memory of its own
    if env.libbpf then
      if env.mmapable h.attr.kernelBpfMapId then .kernel else .container
    else
      .registered
  | .kernelUserPerfEventArray | .progArray => if env.libbpf then .container else .registered
  | .pergputdArrayMap | .gpuArrayMap | .gpuRingbufMap =>
    if env.cuda then .container else .registered
  | .other => .registered
  | _ => .container

end BpfMapHandler

inductive Cmd where
  | lookup (key : List UInt8) (fromSyscall : Bool)
  | update (key value : List UInt8) (flags : UInt64) (fromSyscall : Bool)
  | delete (key : List UInt8) (fromSyscall : Bool)
  deriving DecidableEq, Repr

inductive Extern where
  | registered (type : Int32)
  | kernel (id : UInt32)
  deriving DecidableEq, Repr

structure MapOps (α ε ρ : Type) where
  construct : BpfMapAttr → α
  exec : BpfMapAttr → Cmd → α → ρ × α
  outside : Extern → Cmd → ε → ρ × ε
  allocMap : Int32 → CString → BpfMapAttr → ε → ε
  mapFree : Int32 → ε → ε

structure ShmState (α ε : Type) where
  handlers : List Handler
  heap : NamedHeap CString α
  mapImplPtr : Int32 → Option Nat
  ext : Extern → ε

namespace ShmState

variable {α ε ρ : Type} (env : Env) (ops : MapOps α ε ρ)

def construct (maxFdCount : Nat) (ext : Extern → ε) : ShmState α ε where
  handlers := List.replicate maxFdCount .unused
  heap := .empty
  mapImplPtr := fun _ => none
  ext

def shm (s : ShmState α ε) : BpftimeShm := ⟨s.handlers, s.heap.names⟩

def deref (s : ShmState α ε) (fd : Int32) : Option (NamedHeap.Object CString α) :=
  (s.mapImplPtr fd).bind s.heap.get?

def mapFree (s : ShmState α ε) (h : BpfMapHandler) : ShmState α ε :=
  if h.freesContainer env then
    { s with heap := s.heap.destroy h.getContainerName }
  else
    let e := s.ext (.registered h.attr.type)
    { s with ext := Function.update s.ext (.registered h.attr.type) (ops.mapFree h.attr.type e) }

def clearIdAt (s : ShmState α ε) (fd : Int32) : Option (ShmState α ε) :=
  match s.shm.clearIdAt env fd with
  | none => none
  | some shm =>
    match s.shm.slot? fd with
    | some (.map h) =>
      some { s.mapFree env ops h with
        handlers := shm.handlers
        mapImplPtr := Function.update s.mapImplPtr fd none }
    | _ => some { s with handlers := shm.handlers }

def mapInit (s : ShmState α ε) (fd : Int32) (h : BpfMapHandler) : ShmState α ε :=
  let null := { s with mapImplPtr := Function.update s.mapImplPtr fd none }
  match h.initKind env with
  | .construct =>
    if hmem : h.getContainerName ∈ s.heap.names then
      null
    else if h.constructorAccepts env then
      { s with
        heap := s.heap.construct h.getContainerName (ops.construct h.attr) hmem
        mapImplPtr := Function.update s.mapImplPtr fd (some s.heap.nextId) }
    else
      null
  | .refuse => null
  | .nonBuiltin =>
    if env.allowNonBuildinMapTypes then
      let e := s.ext (.registered h.attr.type)
      { null with
        ext := Function.update s.ext (.registered h.attr.type)
          (ops.allocMap h.attr.type h.name h.attr e) }
    else
      null

def setMap (s : ShmState α ε) (fd : Int32) (h : BpfMapHandler) : Option (Outcome × ShmState α ε) :=
  match s.shm.setHandler env fd (.map h) with
  | none => none
  | some (outcome, shm) =>
    if s.shm.isAllocated fd then
      some (outcome, s)
    else
      some (outcome, { s.mapInit env ops fd h with handlers := shm.handlers })

def replaceByMap (s : ShmState α ε) (fd : Int32) (h : BpfMapHandler)
    : Option (Outcome × ShmState α ε) :=
  match s.shm.slot? fd with
  | none => none
  | some .unused => s.setMap env ops fd h
  | some _ => (s.clearIdAt env ops fd).bind fun s => s.setMap env ops fd h

def dupBpfMap (s : ShmState α ε) (fake oldfd newfd : Int32) : Option (Outcome × ShmState α ε) :=
  match s.shm.slot? oldfd with
  | some (.map h) =>
    if BpftimeShm.orFake newfd fake = oldfd then
      none
    else
      s.replaceByMap env ops (BpftimeShm.orFake newfd fake) ⟨"dup_".toUTF8.toList ++ h.name, h.attr⟩
  | _ => some (.ret (-1) (some .EBADF), s)

def call (s : ShmState α ε) : Op → Option (Outcome × ShmState α ε)
  | .closeFd fd => (s.clearIdAt env ops fd).map fun s => (.ret 0 none, s)
  | .addBpfMap fake fd name attr => s.replaceByMap env ops (BpftimeShm.orFake fd fake) ⟨name, attr⟩
  | .dupBpfMap fake oldfd newfd => s.dupBpfMap env ops fake oldfd newfd
  | op => (s.shm.call env op).map fun r => (r.1, { s with handlers := r.2.handlers })

def access (s : ShmState α ε) (fd : Int32) (cmd : Cmd) : Option (ρ × ShmState α ε) :=
  match s.shm.slot? fd with
  | some (.map h) =>
    match h.target env with
    | .container =>
      match s.deref fd with
      | none => none
      | some o =>
        let (res, contents) := ops.exec h.attr cmd o.contents
        some (res, { s with heap := s.heap.put o.id contents })
    | .kernel =>
      match s.deref fd with
      | none => none
      | some _ =>
        let place := .kernel h.attr.kernelBpfMapId
        let (res, e) := ops.outside place cmd (s.ext place)
        some (res, { s with ext := Function.update s.ext place e })
    | .registered =>
      if h.hasOps then
        let place := .registered h.attr.type
        let (res, e) := ops.outside place cmd (s.ext place)
        some (res, { s with ext := Function.update s.ext place e })
      else
        none
  | _ => none

inductive RunOp where
  | table (op : Op)
  | access (fd : Int32) (cmd : Cmd)

def step (s : ShmState α ε) : RunOp → Option (ShmState α ε)
  | .table op => (s.call env ops op).map Prod.snd
  | .access fd cmd => (s.access env ops fd cmd).map Prod.snd

end ShmState

end Bpftime.Shm
