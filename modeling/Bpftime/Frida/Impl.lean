import Mathlib.Algebra.Group.Int.Defs
import Mathlib.Logic.Function.Basic

namespace Bpftime.Frida

def ATTACH_UPROBE : Int32 := 6

def ATTACH_URETPROBE : Int32 := 7

def ATTACH_UPROBE_OVERRIDE : Int32 := 1008

def ATTACH_UREPLACE : Int32 := 1009

def INT_MAX : ℤ := 2 ^ 31 - 1

def ENOENT : ℤ := 2

def EEXIST : ℤ := 17

def EINVAL : ℤ := 22

def ENOTSUP : ℤ := 95

inductive CallbackVariant where
  | uprobeCallback
  | uretprobeCallback
  | uprobeOverrideCallback
  deriving DecidableEq, Repr

def fromCbIdxToAttachType : CallbackVariant → Int32
  | .uprobeCallback => ATTACH_UPROBE
  | .uprobeOverrideCallback => ATTACH_UPROBE_OVERRIDE
  | .uretprobeCallback => ATTACH_URETPROBE

inductive AttachEntryCallback where
  | callbackVariant (cb : CallbackVariant)
  | ebpfCallbackArgs (attachType : Int32)
  deriving DecidableEq, Repr

def AttachEntryCallback.attachType : AttachEntryCallback → Int32
  | .callbackVariant cb => fromCbIdxToAttachType cb
  | .ebpfCallbackArgs attachType => attachType

structure AttachEntry where
  selfId : ℤ
  callback : AttachEntryCallback
  function : UInt64
  internalAttach : Option ℕ
  deriving DecidableEq, Repr

def AttachEntry.getType (e : AttachEntry) : Int32 := e.callback.attachType

structure InternalAttachEntry where
  function : UInt64
  userAttaches : List ℕ
  hasListener : Bool
  deriving DecidableEq, Repr

structure Interceptor where
  listeners : UInt64 → Option ℕ
  replacements : UInt64 → Option ℕ

namespace Interceptor

def hook (ic : Interceptor) (function : UInt64) (basicAttachType : Int32) (ptr : ℕ) (ok : Bool)
    : Except String (Bool × Interceptor) :=
  if basicAttachType = ATTACH_UPROBE ∨ basicAttachType = ATTACH_URETPROBE then
    if ok then
      .ok (true, { ic with listeners := Function.update ic.listeners function (some ptr) })
    else
      .error "Failed to attach uprobe/uretprpbe"
  else if basicAttachType = ATTACH_UPROBE_OVERRIDE then
    if ok then
      .ok (false, { ic with replacements := Function.update ic.replacements function (some ptr) })
    else
      .error "Failed to attach filter"
  else
    .ok (false, ic)

def unhook (ic : Interceptor) (inner : InternalAttachEntry) : Interceptor :=
  if inner.hasListener then
    { ic with listeners := Function.update ic.listeners inner.function none }
  else
    { ic with replacements := Function.update ic.replacements inner.function none }

end Interceptor

structure AttachImpl where
  nextId : ℤ
  entries : ℕ → Option AttachEntry
  internals : ℕ → Option InternalAttachEntry
  attaches : ℤ → Option ℕ
  internalAttaches : UInt64 → Option ℕ
  interceptor : Interceptor

structure Fresh where
  entry : ℕ
  inner : ℕ
  interceptorOk : Bool
  deriving DecidableEq, Repr

inductive Fault where
  | inUse
  | overflow
  | dangling
  deriving DecidableEq, Repr

inductive Answer where
  | returned (ret : ℤ) (errno : Option ℤ := none)
  | thrown (what : String)
  deriving DecidableEq, Repr

def deref {α : Type} : Option α → Except Fault α
  | some a => .ok a
  | none => .error .dangling

namespace AttachImpl

def empty : AttachImpl where
  nextId := 1
  entries := fun _ => none
  internals := fun _ => none
  attaches := fun _ => none
  internalAttaches := fun _ => none
  interceptor := ⟨fun _ => none, fun _ => none⟩

def hasType (s : AttachImpl) (types : List Int32) : List ℕ → Except Fault Bool
  | [] => .ok false
  | p :: ps => do
    let v ← deref (s.entries p)
    if v.getType ∈ types then
      return true
    else
      s.hasType types ps

def hasOverride (s : AttachImpl) (inner : InternalAttachEntry) : Except Fault Bool :=
  s.hasType [ATTACH_UPROBE_OVERRIDE] inner.userAttaches

def emplace (s : AttachImpl) (ptr : ℕ) (ent : AttachEntry) : ℕ × AttachImpl :=
  match s.attaches ent.selfId with
  | some p => (p, s)
  | none =>
    (ptr,
      { s with
        entries := Function.update s.entries ptr (some ent)
        attaches := Function.update s.attaches ent.selfId (some ptr) })

def link (s : AttachImpl) (i p : ℕ) : Except Fault AttachImpl := do
  let inner ← deref (s.internals i)
  let entry ← deref (s.entries p)
  return { s with
    internals := Function.update s.internals i
      (some { inner with userAttaches := inner.userAttaches ++ [p] })
    entries := Function.update s.entries p (some { entry with internalAttach := some i }) }

def addAttach (s : AttachImpl) (i : ℕ) (funcAddr : UInt64) (cb : AttachEntryCallback) (ptr : ℕ)
    : Except Fault (Answer × AttachImpl) := do
  if s.nextId = INT_MAX then
    throw .overflow
  if (s.entries ptr).isSome then
    throw .inUse
  let usedId := s.nextId
  let s := { s with nextId := usedId + 1 }
  let (p, s) := s.emplace ptr ⟨usedId, cb, funcAddr, none⟩
  let s ← s.link i p
  return (.returned usedId, s)

def attachAt (s : AttachImpl) (funcAddr : UInt64) (cb : AttachEntryCallback) (fresh : Fresh)
    : Except Fault (Answer × AttachImpl) :=
  if funcAddr = 0 then
    .ok (.returned (-EINVAL), s)
  else
    match s.internalAttaches funcAddr with
    | none =>
      if (s.internals fresh.inner).isSome then
        .error .inUse
      else
        match s.interceptor.hook funcAddr cb.attachType fresh.inner fresh.interceptorOk with
        | .error what => .ok (.thrown what, s)
        | .ok (hasListener, interceptor) =>
          let s := { s with
            interceptor
            internals := Function.update s.internals fresh.inner (some ⟨funcAddr, [], hasListener⟩)
            internalAttaches := Function.update s.internalAttaches funcAddr (some fresh.inner) }
          s.addAttach fresh.inner funcAddr cb fresh.entry
    | some i => do
      let inner ← deref (s.internals i)
      if ← s.hasOverride inner then
        return (.returned (-EEXIST), s)
      else
        s.addAttach i funcAddr cb fresh.entry

def createUprobeAt (s : AttachImpl) (funcAddr : UInt64) (fresh : Fresh) :=
  s.attachAt funcAddr (.callbackVariant .uprobeCallback) fresh

def createUretprobeAt (s : AttachImpl) (funcAddr : UInt64) (fresh : Fresh) :=
  s.attachAt funcAddr (.callbackVariant .uretprobeCallback) fresh

def createUprobeOverrideAt (s : AttachImpl) (funcAddr : UInt64) (fresh : Fresh) :=
  s.attachAt funcAddr (.callbackVariant .uprobeOverrideCallback) fresh

def attachAtWithEbpfCallback (s : AttachImpl) (funcAddr : UInt64) (attachType : Int32)
    (fresh : Fresh) :=
  s.attachAt funcAddr (.ebpfCallbackArgs attachType) fresh

end AttachImpl

structure AttachPrivateData where
  addr : UInt64
  moduleName : String
  deriving DecidableEq, Repr

namespace AttachImpl

def createAttachWithEbpfCallback (s : AttachImpl) (privateData : Option AttachPrivateData)
    (attachType : Int32) (mapped : Except String Bool) (fresh : Fresh)
    : Except Fault (Answer × AttachImpl) :=
  match privateData with
  | none => .ok (.returned (-EINVAL), s)
  | some sub =>
    match if sub.moduleName ≠ "" then mapped else .ok true with
    | .error what => .ok (.thrown what, s)
    | .ok false => .ok (.returned (-EINVAL), s)
    | .ok true =>
      if attachType = ATTACH_UPROBE ∨ attachType = ATTACH_URETPROBE
          ∨ attachType = ATTACH_UPROBE_OVERRIDE then
        s.attachAtWithEbpfCallback sub.addr attachType fresh
      else if attachType = ATTACH_UREPLACE then
        s.attachAtWithEbpfCallback sub.addr ATTACH_UPROBE_OVERRIDE fresh
      else
        .ok (.returned (-ENOTSUP), s)

def eraseAttach (s : AttachImpl) (id : ℤ) : AttachImpl :=
  match s.attaches id with
  | none => s
  | some ptr =>
    { s with
      attaches := Function.update s.attaches id none
      entries := Function.update s.entries ptr none }

def eraseInternal (s : AttachImpl) (func : UInt64) : Except Fault AttachImpl :=
  match s.internalAttaches func with
  | none => .ok s
  | some i => do
    let inner ← deref (s.internals i)
    return { s with
      internalAttaches := Function.update s.internalAttaches func none
      internals := Function.update s.internals i none
      interceptor := s.interceptor.unhook inner }

def detachById (s : AttachImpl) (id : ℤ) : Except Fault (Answer × AttachImpl) :=
  match s.attaches id with
  | none => .ok (.returned 0 (some (-ENOENT)), s)
  | some ptr => do
    let entry ← deref (s.entries ptr)
    let p ← deref entry.internalAttach
    let inner ← deref (s.internals p)
    let inner : InternalAttachEntry :=
      { inner with userAttaches := inner.userAttaches.filter (· ≠ ptr) }
    let s := { s with internals := Function.update s.internals p (some inner) }
    let s := s.eraseAttach id
    if inner.userAttaches = [] ∧ inner.function ≠ 0 then
      let s ← s.eraseInternal inner.function
      return (.returned 0, s)
    else
      return (.returned 0, s)

def eraseAttaches (s : AttachImpl) : List ℕ → Except Fault AttachImpl
  | [] => .ok s
  | p :: ps => do
    let entry ← deref (s.entries p)
    (s.eraseAttach entry.selfId).eraseAttaches ps

def detachByFuncAddr (s : AttachImpl) (func : UInt64) : Except Fault (Answer × AttachImpl) :=
  match s.internalAttaches func with
  | none => .ok (.returned (-ENOENT), s)
  | some i => do
    let inner ← deref (s.internals i)
    let s ← s.eraseAttaches inner.userAttaches
    let s ← s.eraseInternal func
    return (.returned 0, s)

end AttachImpl

inductive Op where
  | createUprobeAt (funcAddr : UInt64) (fresh : Fresh)
  | createUretprobeAt (funcAddr : UInt64) (fresh : Fresh)
  | createUprobeOverrideAt (funcAddr : UInt64) (fresh : Fresh)
  | attachAtWithEbpfCallback (funcAddr : UInt64) (attachType : Int32) (fresh : Fresh)
  | createAttachWithEbpfCallback (privateData : Option AttachPrivateData) (attachType : Int32)
      (mapped : Except String Bool) (fresh : Fresh)
  | detachById (id : ℤ)
  | detachByFuncAddr (func : UInt64)

namespace AttachImpl

def step (s : AttachImpl) : Op → Except Fault (Answer × AttachImpl)
  | .createUprobeAt funcAddr fresh => s.createUprobeAt funcAddr fresh
  | .createUretprobeAt funcAddr fresh => s.createUretprobeAt funcAddr fresh
  | .createUprobeOverrideAt funcAddr fresh => s.createUprobeOverrideAt funcAddr fresh
  | .attachAtWithEbpfCallback funcAddr attachType fresh =>
    s.attachAtWithEbpfCallback funcAddr attachType fresh
  | .createAttachWithEbpfCallback privateData attachType mapped fresh =>
    s.createAttachWithEbpfCallback privateData attachType mapped fresh
  | .detachById id => s.detachById id
  | .detachByFuncAddr func => s.detachByFuncAddr func

def run (s : AttachImpl) : List Op → Except Fault AttachImpl
  | [] => .ok s
  | op :: ops => do
    let (_, s) ← s.step op
    s.run ops

end AttachImpl

end Bpftime.Frida
