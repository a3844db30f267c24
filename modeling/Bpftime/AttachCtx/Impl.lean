import Bpftime.Shm.Handler
import Mathlib.Data.Finset.Basic

namespace Bpftime.AttachCtx

open Shm

def ENOENT : ℤ := 2

def ENOTSUP : ℤ := 95

abbrev Foreign (ω α : Type) := ω → Except String α × ω

structure Env (ω π κ : Type) where
  /-- Built with `BPFTIME_ENABLE_CUDA_ATTACH`. -/
  cuda : Bool
  /-- The implementation that is registered for an attach type. -/
  attachImpls : Int32 → Option ℕ
  newProg : BpfProgHandler → Foreign ω Unit
  loadProgAndHelpers : BpfProgHandler → κ → Foreign ω ℤ
  /-- The creator of private data for an attach type: a pointer and an error. -/
  privateDataGen : Int32 → CString → Foreign ω (Option π × ℤ)
  isNvAttachPrivateData : π → Bool
  /-- Puts a CUDA program into private data. -/
  setNvProgram : BpfProgHandler → π → Foreign ω π
  createAttachWithEbpfCallback : ℕ → BpfProgHandler → Option UInt64 → π → Int32 → Foreign ω ℤ

inductive Exit where
  | thrown (what : String)
  | nullPrivateData
  | outOfTable
  | outOfFuel
  deriving DecidableEq, Repr

inductive Event where
  | loaded (id : ℤ)
  | attached (id : ℤ)
  deriving DecidableEq, Repr

structure State (ω π : Type) where
  world : ω
  instantiatedHandlers : Finset ℤ
  instantiatedProgs : ℤ → Option BpfProgHandler
  instantiatedPerfEvents : ℤ → Option (Option π × Int32)
  instantiatedAttachLinks : ℤ → Option (ℤ × ℕ)
  stk : Finset ℤ
  trace : List Event

def State.start {ω π : Type} (world : ω) : State ω π where
  world
  instantiatedHandlers := ∅
  instantiatedProgs := fun _ => none
  instantiatedPerfEvents := fun _ => none
  instantiatedAttachLinks := fun _ => none
  stk := ∅
  trace := []

abbrev Result (ω π : Type) := Except Exit ℤ × State ω π

section Instantiate

variable {ω π κ : Type} (env : Env ω π κ) (table : List Handler) (config : κ)

def getHandler (id : ℤ) : Option Handler := if id < 0 then none else table[id.toNat]?

def isAllocated (id : ℤ) : Bool :=
  match getHandler table id with
  | none => false
  | some h => h ≠ .unused

def andThen (r : Result ω π) (rest : State ω π → Result ω π) : Result ω π :=
  match r with
  | (.error e, s) => (.error e, s)
  | (.ok err, s) => if err < 0 then (.ok err, s) else rest s

def call {α : Type} (f : Foreign ω α) (s : State ω π) (rest : α → State ω π → Result ω π)
    : Result ω π :=
  match f s.world with
  | (.error what, world) => (.error (.thrown what), { s with world })
  | (.ok a, world) => rest a { s with world }

def instantiateProgHandlerAt (id : ℤ) (handler : BpfProgHandler) (s : State ω π) : Result ω π :=
  call (env.newProg handler) s fun _ s =>
    let s := { s with instantiatedProgs := Function.update s.instantiatedProgs id (some handler) }
    call (env.loadProgAndHelpers handler config) s fun err s =>
      if err < 0 then
        (.ok err, s)
      else
        (.ok 0, { s with
          instantiatedHandlers := insert id s.instantiatedHandlers
          trace := .loaded id :: s.trace })

def toCString (s : String) : CString := s.toUTF8.data.toList

def privateDataArg (h : BpfPerfEventHandler) : Option CString :=
  if h.type = BPF_TYPE_UPROBE_OVERRIDE ∨ h.type = BPF_TYPE_UPROBE ∨ h.type = BPF_TYPE_URETPROBE
      ∨ h.type = BPF_TYPE_UREPLACE then
    match h.data with
    | .uprobe offset _ _ moduleName =>
      some (moduleName ++ toCString ":" ++ toCString (toString offset.toNat))
    | _ => none
  else if h.type = PERF_TYPE_TRACEPOINT then
    match h.data with
    | .tracepoint _ tracepointId => some (toCString (toString tracepointId.toInt))
    | _ => none
  else if h.type = BPF_TYPE_KPROBE ∨ h.type = BPF_TYPE_KRETPROBE then
    match h.data with
    | .kprobe funcName _ _ => some funcName
    | _ => none
  else
    match h.data with
    | .custom attachArgument => some attachArgument
    | _ => none

def instantiatePerfEventHandlerAt (id : ℤ) (h : BpfPerfEventHandler) (s : State ω π)
    : Result ω π :=
  if h.type = PERF_TYPE_SOFTWARE then
    (.ok 0, s)
  else
    match env.attachImpls h.type with
    | none => (.ok (-ENOENT), s)
    | some _ =>
      match privateDataArg h with
      | none => (.error (.thrown "std::get: wrong index for variant"), s)
      | some arg =>
        call (env.privateDataGen h.type arg) s fun r s =>
          if r.2 < 0 then
            (.ok r.2, s)
          else
            (.ok 0, { s with
              instantiatedHandlers := insert id s.instantiatedHandlers
              instantiatedPerfEvents :=
                Function.update s.instantiatedPerfEvents id (some (r.1, h.type)) })

def isCuda (prog : BpfProgHandler) : Bool := (toCString "cuda__").isPrefixOf prog.name

def createAttach (id : ℤ) (impl : ℕ) (prog : BpfProgHandler) (cookie : Option UInt64) (priv : π)
    (attachType : Int32) (s : State ω π) : Result ω π :=
  call (env.createAttachWithEbpfCallback impl prog cookie priv attachType) s fun attachId s =>
    if attachId < 0 then
      (.ok attachId, s)
    else
      (.ok 0, { s with
        instantiatedAttachLinks :=
          Function.update s.instantiatedAttachLinks id (some (attachId, impl))
        instantiatedHandlers := insert id s.instantiatedHandlers
        trace := .attached id :: s.trace })

def perfEventAt (id : ℤ) (s : State ω π) : (Option π × Int32) × State ω π :=
  match s.instantiatedPerfEvents id with
  | some e => (e, s)
  | none =>
    ((none, 0), { s with
      instantiatedPerfEvents := Function.update s.instantiatedPerfEvents id (some (none, 0)) })

def instantiateBpfLinkHandlerAt (id : ℤ) (h : BpfLinkHandler) (handleNvAttachImpl : Bool)
    (s : State ω π) : Result ω π :=
  let target := h.attachTargetId.toInt
  let ((privData, attachType), s) := perfEventAt target s
  match env.attachImpls attachType with
  | none => (.ok (-ENOTSUP), s)
  | some impl =>
    match s.instantiatedProgs h.progId.toInt with
    | none => (.error (.thrown "map::at"), s)
    | some prog =>
      if env.cuda ∧ isCuda prog then
        if handleNvAttachImpl then
          match privData with
          | none => (.error .nullPrivateData, s)
          | some priv =>
            if env.isNvAttachPrivateData priv then
              call (env.setNvProgram prog priv) s fun priv s =>
                createAttach env id impl prog none priv attachType { s with
                  instantiatedPerfEvents :=
                    Function.update s.instantiatedPerfEvents target (some (some priv, attachType)) }
            else
              (.error (.thrown "std::bad_cast"), s)
        else
          (.ok 0, s)
      else if env.cuda ∧ privData.any env.isNvAttachPrivateData then
        (.ok (-1), s)
      else
        match privData with
        | none => (.error .nullPrivateData, s)
        | some priv => createAttach env id impl prog h.attachCookie priv attachType s

def instantiateKind (handleNvAttachImpl : Bool) (visit : ℤ → State ω π → Result ω π) (id : ℤ)
    (s : State ω π) : Handler → Result ω π
  | .prog h => instantiateProgHandlerAt env config id h s
  | .perfEvent h => instantiatePerfEventHandlerAt env id h s
  | .link h =>
    andThen (visit h.progId.toInt s) fun s =>
      andThen (visit h.attachTargetId.toInt s) fun s =>
        instantiateBpfLinkHandlerAt env id h handleNvAttachImpl s
  | _ => (.ok 0, s)

def instantiateHandlerAt (handleNvAttachImpl : Bool) : ℕ → ℤ → State ω π → Result ω π
  | 0, _, s => (.error .outOfFuel, s)
  | fuel + 1, id, s =>
    if id ∈ s.instantiatedHandlers then
      (.ok 0, s)
    else if id ∈ s.stk then
      (.ok (-1), s)
    else
      let s := { s with stk := insert id s.stk }
      match getHandler table id with
      | none => (.error .outOfTable, s)
      | some handler =>
        andThen
          (instantiateKind env config handleNvAttachImpl
            (instantiateHandlerAt handleNvAttachImpl fuel) id s handler)
          fun s => (.ok 0, { s with stk := s.stk.erase id })

def instantiateAll (handleNvAttachImpl : Bool) (fuel : ℕ) : List ℕ → State ω π → Result ω π
  | [], s => (.ok 0, s)
  | i :: is, s =>
    if isAllocated table i then
      match instantiateHandlerAt env table config handleNvAttachImpl fuel i { s with stk := ∅ } with
      | (.error e, s) => (.error e, s)
      | (.ok _, s) => instantiateAll handleNvAttachImpl fuel is s
    else
      instantiateAll handleNvAttachImpl fuel is s

def initAttachCtxFromHandlers (fuel : ℕ) (s : State ω π) : Result ω π :=
  let ids := List.range (Int32.ofNat table.length).toInt.toNat
  match instantiateAll env table config false fuel ids s with
  | (.error e, s) => (.error e, s)
  | (.ok _, s) => instantiateAll env table config true fuel ids s

def initRepeatedly (fuel : ℕ) (configs : List κ) (s : State ω π) : State ω π :=
  configs.foldl (fun s config => (initAttachCtxFromHandlers env table config fuel s).2) s

end Instantiate

end Bpftime.AttachCtx
