import Mathlib.Data.Nat.Notation
import Mathlib.Logic.Function.Basic

namespace Bpftime.Ubpf

scoped instance neZeroRegs : @NeZero ℕ Zero.ofOfNat0 16 := ⟨by decide⟩

structure EbpfInst where
  code : UInt8
  dstReg : Fin 16
  srcReg : Fin 16
  off : Int16
  imm : Int32
  deriving DecidableEq, Repr

def EBPF_OP_CALL : UInt8 := 0x85

def EBPF_OP_LDDW : UInt8 := 0x18

def EINVAL : Int32 := 22

structure LddwHelpers where
  mapByFd : Option (UInt32 → UInt64)
  mapByIdx : Option (UInt32 → UInt64)
  mapVal : Option (UInt64 → UInt64)
  varAddr : Option (UInt32 → UInt64)
  codeAddr : Option (UInt32 → UInt64)

structure BpftimeUbpfVm (υ : Type) where
  ubpfVm : υ
  lddw : LddwHelpers
  helperIdMap : UInt64 → Option UInt64
  nextHelperId : UInt64

abbrev UbpfRegister (υ φ : Type) := υ → UInt32 → String → φ → Int32 × υ

namespace BpftimeUbpfVm

variable {υ φ : Type}

def create (ubpfVm : υ) : BpftimeUbpfVm υ where
  ubpfVm
  lddw := ⟨none, none, none, none, none⟩
  helperIdMap := fun _ => none
  nextHelperId := 1

def setLddwHelpers (vm : BpftimeUbpfVm υ) (lddw : LddwHelpers) : BpftimeUbpfVm υ := { vm with lddw }

def registerExternalFunction (ubpfRegister : UbpfRegister υ φ) (vm : BpftimeUbpfVm υ)
    (index : UInt64) (name : String) (fn : φ) : Int32 × BpftimeUbpfVm υ :=
  let nextId := vm.nextHelperId
  -- the entry is made before ubpf has taken the function
  let helperIdMap := Function.update vm.helperIdMap index (some nextId)
  let (r, ubpfVm) := ubpfRegister vm.ubpfVm nextId.toUInt32 name fn
  (r, { vm with ubpfVm, helperIdMap, nextHelperId := nextId + 1 })

def helperIndex (insn : EbpfInst) : UInt64 := UInt64.ofInt insn.imm.toInt

def callError (i : ℕ) (insn : EbpfInst) : String :=
  if insn.imm ≥ 64 then
    "invalid call immediate at PC " ++ toString i
  else
    "call to nonexistent function " ++ toString insn.imm.toInt ++ " at PC " ++ toString i

def lddwError (i : ℕ) (reason : String) : String :=
  "Unable to patch lddw instruction at " ++ toString i ++ ", " ++ reason

def resolve (lddw : LddwHelpers) (i : ℕ) (curr next : EbpfInst) : Except String UInt64 :=
  if curr.srcReg = 0 then
    .ok (curr.imm.toUInt32.toUInt64 ||| (next.imm.toUInt32.toUInt64 <<< 32))
  else if curr.srcReg = 1 then
    match lddw.mapByFd with
    | none => .error (lddwError i "map_by_fd not defined")
    | some mapByFd => .ok (mapByFd curr.imm.toUInt32)
  else if curr.srcReg = 2 then
    match lddw.mapByFd, lddw.mapVal with
    | some mapByFd, some mapVal =>
      .ok (mapVal (mapByFd curr.imm.toUInt32) + UInt64.ofInt next.imm.toInt)
    | _, _ => .error (lddwError i "map_by_fd or map_val not defined")
  else if curr.srcReg = 3 then
    match lddw.varAddr with
    | none => .error (lddwError i "var_addr not defined")
    | some varAddr => .ok (varAddr curr.imm.toUInt32)
  else if curr.srcReg = 4 then
    match lddw.codeAddr with
    | none => .error (lddwError i "code_addr not defined")
    | some codeAddr => .ok (codeAddr curr.imm.toUInt32)
  else if curr.srcReg = 5 then
    match lddw.mapByIdx with
    | none => .error (lddwError i "map_by_idx not defined")
    | some mapByIdx => .ok (mapByIdx curr.imm.toUInt32)
  else if curr.srcReg = 6 then
    match lddw.mapByIdx, lddw.mapVal with
    | some mapByIdx, some mapVal =>
      .ok (mapVal (mapByIdx curr.imm.toUInt32) + UInt64.ofInt next.imm.toInt)
    | _, _ => .error (lddwError i "map_by_idx or map_val not defined")
  else
    .error (lddwError i ("unsupported src_reg " ++ toString curr.srcReg.val))

def patch (vm : BpftimeUbpfVm υ) : ℕ → List EbpfInst → Except String (List EbpfInst)
  | _, [] => .ok []
  | i, curr :: rest =>
    if curr.code = EBPF_OP_CALL then
      match vm.helperIdMap (helperIndex curr) with
      | some id => do
        let rest ← vm.patch (i + 1) rest
        return { curr with imm := id.toUInt32.toInt32 } :: rest
      | none => .error (callError i curr)
    else if curr.code = EBPF_OP_LDDW then
      match rest with
      | [] =>
        .error ("Unable to patch lddw instructions at " ++ toString i
          ++ ", it's the last instruction")
      | next :: rest => do
        let imm ← resolve vm.lddw i curr next
        let rest ← vm.patch (i + 2) rest
        return { curr with imm := (imm &&& 0xffffffff).toUInt32.toInt32, srcReg := 0 }
          :: { next with imm := (imm >>> 32).toUInt32.toInt32 } :: rest
    else do
      let rest ← vm.patch (i + 1) rest
      return curr :: rest

inductive Loading where
  | failed (r : Int32) (errorString : String)
  | handed (insns : List EbpfInst)
  deriving DecidableEq, Repr

def loadCode (vm : BpftimeUbpfVm υ) (code : List EbpfInst) (codeLen : ℕ) : Loading :=
  if codeLen % 8 ≠ 0 then
    .failed (-1) "Length of code must be a multiple of 8"
  else
    match vm.patch 0 (code.take (codeLen / 8)) with
    | .error errorString => .failed (-EINVAL) errorString
    | .ok insns => .handed insns

end BpftimeUbpfVm

end Bpftime.Ubpf
