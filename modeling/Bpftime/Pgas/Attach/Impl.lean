import Mathlib.Algebra.Group.Int.Defs
import Mathlib.Logic.Function.Basic

namespace Bpftime.Pgas.Attach

inductive PgasOpType where
  | load
  | store
  | atomicAdd
  | atomicCas
  | fence
  | memcpy
  | memmove
  | memset
  deriving DecidableEq, Repr

inductive OverrideHandler where
  | memcpy
  | memmove
  | memset
  deriving DecidableEq, Repr

structure PgasAttachPrivateData where
  targetAddress : UInt64 := 0
  moduleName : String := ""
  symbolName : String := ""
  opType : PgasOpType := .load

structure PgasAttachEntry where
  id : ℤ
  opType : PgasOpType
  deriving DecidableEq, Repr

structure PgasAttachImpl where
  nextId : ℤ
  heap : ℕ → Option PgasAttachEntry
  attaches : ℤ → Option ℕ
  internalAttaches : UInt64 → Option (List ℕ)
  interceptor : UInt64 → Option OverrideHandler

def INT_MAX : ℤ := 2 ^ 31 - 1

def ENOENT : ℤ := 2

abbrev ResolveSymbol := String → String → UInt64

def overrideHandler : PgasOpType → OverrideHandler
  | .memset => .memset
  | .memmove => .memmove
  | _ => .memcpy

def PgasAttachPrivateData.target (resolveSymbol : ResolveSymbol) (priv : PgasAttachPrivateData)
    : Option UInt64 :=
  if priv.targetAddress = 0 ∧ priv.moduleName ≠ "" then
    let target := resolveSymbol priv.moduleName priv.symbolName
    if target = 0 then none else some target
  else
    some priv.targetAddress

namespace PgasAttachImpl

def empty : PgasAttachImpl where
  nextId := 1
  heap := fun _ => none
  attaches := fun _ => none
  internalAttaches := fun _ => none
  interceptor := fun _ => none

def getOrCreateInternalEntry (s : PgasAttachImpl) (addr : UInt64) (opType : PgasOpType)
    : PgasAttachImpl :=
  match s.internalAttaches addr with
  | some _ => s
  | none =>
    { s with
      interceptor := Function.update s.interceptor addr (some (overrideHandler opType))
      internalAttaches := Function.update s.internalAttaches addr (some []) }

def addAttach (s : PgasAttachImpl) (addr : UInt64) (ptr : ℕ) : PgasAttachImpl :=
  { s with
    internalAttaches :=
      Function.update s.internalAttaches addr (some ((s.internalAttaches addr).getD [] ++ [ptr])) }

def addEntry (s : PgasAttachImpl) (ptr : ℕ) (opType : PgasOpType) : PgasAttachImpl :=
  { s with
    nextId := s.nextId + 1
    heap := Function.update s.heap ptr (some ⟨s.nextId, opType⟩)
    attaches := Function.update s.attaches s.nextId (some ptr) }

def createPgasHook (resolveSymbol : ResolveSymbol) (s : PgasAttachImpl)
    (priv : PgasAttachPrivateData) (ptr : ℕ) : Option (ℤ × PgasAttachImpl) :=
  match priv.target resolveSymbol with
  | none => some (-ENOENT, s)
  | some target =>
    if s.nextId = INT_MAX ∨ (s.heap ptr).isSome then
      none
    else
      let id := s.nextId
      let s := s.getOrCreateInternalEntry target priv.opType
      let s := s.addAttach target ptr
      some (id, s.addEntry ptr priv.opType)

def removeAttach (s : PgasAttachImpl) (ptr : ℕ) : PgasAttachImpl :=
  let internalAttaches := fun addr => (s.internalAttaches addr).map (·.filter (· ≠ ptr))
  { s with
    internalAttaches
    interceptor := fun addr =>
      if internalAttaches addr = some [] then none else s.interceptor addr }

def removeEntry (s : PgasAttachImpl) (id : ℤ) (ptr : ℕ) : PgasAttachImpl :=
  { s with
    attaches := Function.update s.attaches id none
    heap := Function.update s.heap ptr none }

def detachById (s : PgasAttachImpl) (id : ℤ) : ℤ × PgasAttachImpl :=
  match s.attaches id with
  | none => (-ENOENT, s)
  | some ptr => (0, (s.removeAttach ptr).removeEntry id ptr)

end PgasAttachImpl

inductive Op where
  | create (priv : PgasAttachPrivateData) (ptr : ℕ)
  | detach (id : ℤ)

def PgasAttachImpl.step (resolveSymbol : ResolveSymbol) (s : PgasAttachImpl)
    : Op → Option (ℤ × PgasAttachImpl)
  | .create priv ptr => s.createPgasHook resolveSymbol priv ptr
  | .detach id => some (s.detachById id)

end Bpftime.Pgas.Attach
