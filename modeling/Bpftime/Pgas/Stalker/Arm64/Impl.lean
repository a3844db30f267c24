import Bpftime.Pgas.Stalker.Impl

namespace Bpftime.Pgas.Stalker.Arm64

open WordMem (Mem shift put)

inductive Arm64Reg where
  | invalid
  | x (i : Fin 29)
  | x29
  | x30
  | w (i : Fin 29)
  | w29
  | w30
  | sp
  | wsp
  | xzr
  | wzr
  | other (id : UInt32)
  deriving DecidableEq

inductive Extender where
  | invalid
  | uxtb
  | uxth
  | uxtw
  | uxtx
  | sxtb
  | sxth
  | sxtw
  | sxtx
  deriving DecidableEq

structure MemOperand where
  base : Arm64Reg
  index : Arm64Reg
  ext : Extender
  shift : UInt8
  disp : UInt64

inductive Operand where
  | reg (r : Arm64Reg)
  | imm (v : UInt64)
  | mem (m : MemOperand)

structure CsInsn where
  mnemonic : List Char
  operands : List Operand

structure CpuContext where
  x : Fin 29 → UInt64
  fp : UInt64
  lr : UInt64
  sp : UInt64

structure Machine where
  cpu : CpuContext
  mem : Mem
  remote : UInt16 → Mem
  sent : List RemoteWrite

structure Arm64MemInfo where
  isLoad : Bool
  isStore : Bool
  regs : List Arm64Reg
  accessSize : ℕ
  perRegSize : ℕ
  baseReg : Arm64Reg
  indexReg : Arm64Reg
  indexExt : Extender
  indexShift : UInt8
  disp : UInt64

def isArm64Load (mnemonic : List Char) : Bool :=
  "ldr".toList.isPrefixOf mnemonic
    || "ldur".toList.isPrefixOf mnemonic
    || "ldp".toList.isPrefixOf mnemonic
    || "ldnp".toList.isPrefixOf mnemonic
    || "ldar".toList.isPrefixOf mnemonic
    || "ldaxr".toList.isPrefixOf mnemonic
    || "ldxr".toList.isPrefixOf mnemonic

def isArm64Store (mnemonic : List Char) : Bool :=
  "str".toList.isPrefixOf mnemonic
    || "stur".toList.isPrefixOf mnemonic
    || "stp".toList.isPrefixOf mnemonic
    || "stnp".toList.isPrefixOf mnemonic
    || "stlr".toList.isPrefixOf mnemonic
    || "stlxr".toList.isPrefixOf mnemonic
    || "stxr".toList.isPrefixOf mnemonic

def isSupportedGpr : Arm64Reg → Bool
  | .invalid => false
  | .other _ => false
  | _ => true

def isStackRelative : Arm64Reg → Bool
  | .sp => true
  | .wsp => true
  | .x29 => true
  | .w29 => true
  | _ => false

def strstr (text needle : List Char) : Bool :=
  match text with
  | [] => needle.isEmpty
  | c :: rest => needle.isPrefixOf (c :: rest) || strstr rest needle

def isWordReg : Arm64Reg → Bool
  | .w _ => true
  | .w29 => true
  | .w30 => true
  | .wsp => true
  | .wzr => true
  | _ => false

def arm64MemoryWidth (mnemonic : List Char) (reg : Arm64Reg) : ℕ :=
  if strstr mnemonic "rsb".toList || mnemonic.getLast? = some 'b' then
    1
  else if strstr mnemonic "rsh".toList || mnemonic.getLast? = some 'h' then
    2
  else if strstr mnemonic "rsw".toList then
    4
  else if isWordReg reg then
    4
  else
    8

def findMem : List Operand → Option (List Operand × MemOperand)
  | [] => none
  | .mem m :: _ => some ([], m)
  | op :: ops => (findMem ops).map fun (front, m) => (op :: front, m)

def supportedReg : Operand → Option Arm64Reg
  | .reg r => if isSupportedGpr r then some r else none
  | _ => none

def analyzeArm64Mem (insn : CsInsn) (cfg : StalkerConfig) : Option Arm64MemInfo :=
  let isLoad := isArm64Load insn.mnemonic
  let isStore := isArm64Store insn.mnemonic
  if !isLoad && !isStore then
    none
  else if !cfg.hookMov then
    none
  else
    match findMem insn.operands with
    | none => none
    | some (front, m) =>
      match (front.filterMap supportedReg).take 2 with
      | [] => none
      | reg :: rest =>
        -- The width is that of the first register.
        let perRegSize := arm64MemoryWidth insn.mnemonic reg
        let accessSize := perRegSize * (rest.length + 1)
        if perRegSize > 8 then
          none
        else if accessSize = 0 ∨ accessSize > 16 then
          none
        else
          some {
            isLoad
            isStore
            regs := reg :: rest
            accessSize
            perRegSize
            baseReg := m.base
            indexReg := m.index
            indexExt := m.ext
            indexShift := m.shift
            disp := m.disp }

def readReg (cpu : CpuContext) : Arm64Reg → UInt64
  | .x i => cpu.x i
  | .w i => (cpu.x i).toUInt32.toUInt64
  | .x29 => cpu.fp
  | .w29 => cpu.fp.toUInt32.toUInt64
  | .x30 => cpu.lr
  | .w30 => cpu.lr.toUInt32.toUInt64
  | .sp => cpu.sp
  | .wsp => cpu.sp
  | _ => 0

def extendIndex (index : UInt64) : Extender → UInt64
  | .uxtb => index.toUInt8.toUInt64
  | .uxth => index.toUInt16.toUInt64
  | .uxtw => index.toUInt32.toUInt64
  | .sxtb => index.toUInt8.toInt8.toInt64.toUInt64
  | .sxth => index.toUInt16.toInt16.toInt64.toUInt64
  | .sxtw => index.toUInt32.toInt32.toInt64.toUInt64
  | .sxtx => index
  | _ => index

def computeEa (cpu : CpuContext) (info : Arm64MemInfo) : UInt64 :=
  let ea := info.disp
  let ea := if info.baseReg ≠ .invalid then ea + readReg cpu info.baseReg else ea
  if info.indexReg ≠ .invalid then
    ea + extendIndex (readReg cpu info.indexReg) info.indexExt <<< info.indexShift.toUInt64
  else
    ea

def storeLe (buf : ℕ → UInt8) (off : ℕ) (val : UInt64) (size : ℕ) : ℕ → UInt8 :=
  fun i => if off ≤ i ∧ i < off + min size 8 then LittleEndian.byte val.toNat (i - off) else buf i

def storeRegs (cpu : CpuContext) (size : ℕ) (buf : ℕ → UInt8) (i : ℕ) : List Arm64Reg → ℕ → UInt8
  | [] => buf
  | reg :: regs =>
    storeRegs cpu size (storeLe buf (i * size) (readReg cpu reg) size) (i + 1) regs

structure Arm64CalloutData where
  config : Config
  info : Arm64MemInfo

def routeNode (c : Config) (ea : UInt64) : UInt16 :=
  let regionPerNode := c.size / c.numNodes.toUInt64
  if regionPerNode = 0 then
    c.localNodeId
  else
    let node := ((ea - c.base) / regionPerNode).toUInt16
    if c.numNodes ≤ node then c.numNodes - 1 else node

def calloutNode (c : Config) (ea : UInt64) : Option UInt16 :=
  if !StalkerMov.isInPgasRange ea c.base c.size || c.numNodes = 0 then
    none
  else
    let node := routeNode c ea
    if node = c.localNodeId then none else some node

def arm64LoadCallout (cd : Arm64CalloutData) (s : Machine) : Machine :=
  let ea := computeEa s.cpu cd.info
  match calloutNode cd.config ea with
  | none => s
  | some node =>
    { s with mem := put s.mem ea (fun i => s.remote node (shift ea i)) cd.info.accessSize }

def arm64StoreCallout (cd : Arm64CalloutData) (s : Machine) : Machine :=
  let ea := computeEa s.cpu cd.info
  match calloutNode cd.config ea with
  | none => s
  | some node =>
    let buf := storeRegs s.cpu cd.info.perRegSize (fun _ => 0) 0 cd.info.regs
    { s with
      remote := Function.update s.remote node (put (s.remote node) ea buf cd.info.accessSize)
      sent := s.sent ++ [⟨node, ea, (List.range cd.info.accessSize).map buf⟩] }

inductive Item where
  | loadCallout (cd : Arm64CalloutData)
  | storeCallout (cd : Arm64CalloutData)
  | keep (insn : CsInsn)

def transformInsn (cfg : StalkerConfig) (next : ℕ) (insn : CsInsn) : List Item × ℕ :=
  match analyzeArm64Mem insn cfg with
  | none => ([.keep insn], next)
  | some info =>
    if isStackRelative info.baseReg then
      ([.keep insn], next)
    else if info.baseReg = .invalid ∧ info.indexReg = .invalid
        ∧ !StalkerMov.isInPgasRange info.disp cfg.base cfg.size then
      ([.keep insn], next)
    else if calloutPoolCapacity ≤ next then
      ([.keep insn], next + 1)
    else
      let cd := ⟨cfg.toConfig, info⟩
      ([if info.isLoad then .loadCallout cd else .storeCallout cd, .keep insn], next + 1)

def runCallouts (items : List Item) (s : Machine) : Machine :=
  match items with
  | [] => s
  | .loadCallout cd :: items => runCallouts items (arm64LoadCallout cd s)
  | .storeCallout cd :: items => runCallouts items (arm64StoreCallout cd s)
  | .keep _ :: items => runCallouts items s

end Bpftime.Pgas.Stalker.Arm64
