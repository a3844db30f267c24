import Bpftime.Pgas.Route
import Bpftime.Pgas.Stalker.X86

namespace Bpftime.Pgas.Stalker

open WordMem (Mem shift put)

structure Platform where
  /-- The numbering of `x86_reg`. -/
  regOfId : UInt32 → X86Reg
  /-- The operand that the writer encodes for an immediate of `add` and `sub`. -/
  immediate : UInt64 → UInt64
  rest : CsInsn → Machine → Machine

structure StalkerConfig extends Config where
  hookMov : Bool
  hookMovzx : Bool
  hookMovnti : Bool

structure MovMemInfo where
  isLoad : Bool
  isStore : Bool
  regOpIdx : ℕ
  accessSize : ℕ
  baseReg : X86Reg
  indexReg : X86Reg
  scale : UInt64
  disp : UInt64

def isMovInsn : InsnId → Bool
  | .other _ => false
  | _ => true

def isStackRelative : X86Reg → Bool
  | .gp .rsp _ => true
  | .gp .rbp _ => true
  | _ => false

def analyzeMov.go (i : ℕ) : List Operand → Option MovMemInfo
  | [] => none
  | ⟨.mem m, size⟩ :: _ =>
    some {
      isLoad := i ≠ 0
      isStore := i = 0
      regOpIdx := if i = 0 then 1 else 0
      accessSize := size
      baseReg := m.base
      indexReg := m.index
      scale := m.scale
      disp := m.disp }
  | _ :: operands => analyzeMov.go (i + 1) operands

def analyzeMov (insn : CsInsn) (cfg : StalkerConfig) : Option MovMemInfo :=
  if !isMovInsn insn.id then
    none
  else if !cfg.hookMov && (insn.id = .mov || insn.id = .movabs) then
    none
  else if !cfg.hookMovzx && (insn.id = .movzx || insn.id = .movsxd || insn.id = .movsx) then
    none
  else if !cfg.hookMovnti
      && (insn.id = .movnti || insn.id = .movntdq || insn.id = .movntps || insn.id = .movntpd) then
    none
  else
    analyzeMov.go 0 insn.operands

def readReg (cpu : Regs) : X86Reg → UInt64
  | .gp r _ => cpu.gpr r
  | .rip => cpu.rip
  | _ => 0

def writeReg (cpu : Regs) (reg : X86Reg) (val : UInt64) : Regs :=
  match reg with
  | .gp r _ => cpu.setGpr r val
  | _ => cpu

def csToGumReg : X86Reg → Gpr
  | .gp r .qword => r
  | .gp r .dword => r
  | _ => .rax

def computeEa (cpu : Regs) (info : MovMemInfo) : UInt64 :=
  let ea := info.disp
  let ea := if info.baseReg ≠ .invalid then ea + readReg cpu info.baseReg else ea
  if info.indexReg ≠ .invalid then ea + readReg cpu info.indexReg * info.scale else ea

structure MovCalloutData where
  index : ℕ
  config : Config
  info : MovMemInfo
  destReg : X86Reg
  srcReg : X86Reg

def calloutPoolCapacity : ℕ := 1024 * 1024

def transferSize (cd : MovCalloutData) : ℕ :=
  if cd.info.accessSize > 8 then 8 else cd.info.accessSize

def remoteRead (s : Machine) (node : UInt16) (addr : UInt64) (size : ℕ) : UInt64 :=
  .ofNat (LittleEndian.value (fun i => s.remote node (shift addr i)) size)

def remoteWrite (s : Machine) (node : UInt16) (addr val : UInt64) (size : ℕ) : Machine :=
  { s with
    remote := Function.update s.remote node
      (put (s.remote node) addr (LittleEndian.byte val.toNat) size)
    sent := s.sent ++ [⟨node, addr, (List.range size).map (LittleEndian.byte val.toNat)⟩] }

def movLoadCallout (cd : MovCalloutData) (s : Machine) : Machine :=
  let ea := computeEa s.regs cd.info
  match StalkerMov.movLoadCallout cd.config ea with
  | .passthrough => s
  | .remote node =>
    let val := remoteRead s node ea (transferSize cd)
    { s with regs := writeReg s.regs cd.destReg val }

def movStoreCallout (cd : MovCalloutData) (s : Machine) : Machine :=
  let ea := computeEa s.regs cd.info
  match StalkerMov.movStoreCallout cd.config ea with
  | .passthrough => s
  | .remote node => remoteWrite s node ea (readReg s.regs cd.srcReg) (transferSize cd)

inductive Item where
  | pushfx
  | pushReg (r : Gpr)
  | movRegReg (dst src : Gpr)
  | addRegImm (r : Gpr) (imm : UInt64)
  | subRegImm (r : Gpr) (imm : UInt64)
  | cmpRegI32 (r : Gpr) (imm : UInt32)
  | popReg (r : Gpr)
  | popfx
  | jae (target : ℕ)
  | loadCallout (cd : MovCalloutData)
  | storeCallout (cd : MovCalloutData)
  | label (name : ℕ)
  | keep (insn : CsInsn)

def callout (cd : MovCalloutData) (isLoad : Bool) : Item :=
  if isLoad then .loadCallout cd else .storeCallout cd

def scratchReg (info : MovMemInfo) : Gpr :=
  if info.baseReg ≠ .invalid ∧ csToGumReg info.baseReg = .rcx then .rdx else .rcx

def canInline (info : MovMemInfo) : Bool := info.baseReg ≠ .invalid && info.indexReg = .invalid

def emitInlineRangeCheck (info : MovMemInfo) (cd : MovCalloutData) (isLoad : Bool) : List Item :=
  if !canInline info || cd.config.size > 0x7fffffff then
    [callout cd isLoad]
  else
    let scratch := scratchReg info
    [.pushfx, .pushReg scratch, .movRegReg scratch (csToGumReg info.baseReg)]
      ++ (if info.disp ≠ 0 then [.addRegImm scratch info.disp] else [])
      ++ [.subRegImm scratch cd.config.base, .cmpRegI32 scratch cd.config.size.toUInt32,
        .popReg scratch, .popfx, .jae cd.index, callout cd isLoad, .label cd.index]

def Operand.reg (P : Platform) (o : Operand) : X86Reg :=
  match o.op with
  | .reg r => r
  | .imm v => P.regOfId v.toUInt32
  | .mem m => m.segment

def regOperand (P : Platform) (insn : CsInsn) (i : ℕ) : X86Reg :=
  match insn.operands[i]? with
  | some o => o.reg P
  | none => .invalid

def transformInsn (P : Platform) (cfg : StalkerConfig) (next : ℕ) (insn : CsInsn) : List Item × ℕ :=
  match analyzeMov insn cfg with
  | none => ([.keep insn], next)
  | some info =>
    if isStackRelative info.baseReg then
      ([.keep insn], next)
    else if info.baseReg = .invalid ∧ info.indexReg = .invalid
        ∧ (info.disp < cfg.base ∨ cfg.base + cfg.size ≤ info.disp) then
      ([.keep insn], next)
    else if info.baseReg = .rip then
      ([.keep insn], next)
    else if calloutPoolCapacity ≤ next then
      ([.keep insn], next + 1)
    else if info.isLoad then
      let cd := ⟨next, cfg.toConfig, info, regOperand P insn info.regOpIdx, .invalid⟩
      (emitInlineRangeCheck info cd true ++ [.keep insn], next + 1)
    else if info.isStore then
      let cd := ⟨next, cfg.toConfig, info, .invalid, regOperand P insn info.regOpIdx⟩
      (emitInlineRangeCheck info cd false ++ [.keep insn], next + 1)
    else
      ([.keep insn], next + 1)

def transformBlock (P : Platform) (cfg : StalkerConfig) (next : ℕ) : List CsInsn → List Item × ℕ
  | [] => ([], next)
  | insn :: insns =>
    let (items, next) := transformInsn P cfg next insn
    let (rest, next) := transformBlock P cfg next insns
    (items ++ rest, next)

namespace Machine

def setGpr (s : Machine) (r : Gpr) (v : UInt64) : Machine := { s with regs := s.regs.setGpr r v }

def setFlags (s : Machine) (v : UInt64) : Machine := { s with regs := { s.regs with rflags := v } }

def push (s : Machine) (v : UInt64) : Machine :=
  let rsp := s.regs.gpr .rsp - 8
  { s with mem := put s.mem rsp (LittleEndian.byte v.toNat) 8 }.setGpr .rsp rsp

def top (s : Machine) : UInt64 :=
  .ofNat (LittleEndian.value (fun i => s.mem (shift (s.regs.gpr .rsp) i)) 8)

def drop (s : Machine) : Machine := s.setGpr .rsp (s.regs.gpr .rsp + 8)

end Machine

def bit (b : Bool) (i : UInt64) : UInt64 := b.toUInt64 <<< i

def statusFlags (old a b result : UInt64) (carry overflow : Bool) : UInt64 :=
  let parity := (List.range 8).foldl (fun p i => p != result.toNat.testBit i) true
  (old &&& ~~~(0x8d5 : UInt64)) ||| bit carry 0 ||| bit parity 2 ||| bit ((a ^^^ b ^^^ result).toNat.testBit 4) 4
    ||| bit (result = 0) 6 ||| bit (result.toNat.testBit 63) 7 ||| bit overflow 11

def addFlags (old a b : UInt64) : UInt64 :=
  statusFlags old a b (a + b) (a + b < a) (((a ^^^ (a + b)) &&& (b ^^^ (a + b))).toNat.testBit 63)

def subFlags (old a b : UInt64) : UInt64 :=
  statusFlags old a b (a - b) (a < b) (((a ^^^ b) &&& (a ^^^ (a - b))).toNat.testBit 63)

def execItem (P : Platform) (s : Machine) : Item → Machine
  | .pushfx => s.push s.regs.rflags
  | .pushReg r => s.push (s.regs.gpr r)
  | .movRegReg dst src => s.setGpr dst (s.regs.gpr src)
  | .addRegImm r imm =>
    let a := s.regs.gpr r
    let b := P.immediate imm
    (s.setGpr r (a + b)).setFlags (addFlags s.regs.rflags a b)
  | .subRegImm r imm =>
    let a := s.regs.gpr r
    let b := P.immediate imm
    (s.setGpr r (a - b)).setFlags (subFlags s.regs.rflags a b)
  | .cmpRegI32 r imm => s.setFlags (subFlags s.regs.rflags (s.regs.gpr r) imm.toInt32.toInt64.toUInt64)
  | .popReg r => s.drop.setGpr r s.top
  | .popfx => s.drop.setFlags s.top
  | .loadCallout cd => movLoadCallout cd s
  | .storeCallout cd => movStoreCallout cd s
  | .keep insn => insn.execute P.rest s
  | .jae _ => s
  | .label _ => s

def Item.branch (s : Machine) : Item → Option ℕ
  | .jae target => if s.regs.carry then none else some target
  | _ => none

def Item.isLabel (target : ℕ) : Item → Bool
  | .label name => name = target
  | _ => false

def exec (P : Platform) (skip : Option ℕ) (items : List Item) (s : Machine) : Machine :=
  match items with
  | [] => s
  | item :: items =>
    match skip with
    | none => exec P (item.branch s) items (execItem P s item)
    | some target => exec P (if item.isLabel target then none else some target) items s

end Bpftime.Pgas.Stalker
