import Bpftime.Pgas.Stalker.Block
import Bpftime.Pgas.Stalker.Arm64.Impl

namespace Bpftime.Pgas.Stalker.Arm64

open WordMem (Mem shift put)

inductive Gpr where
  | x (i : Fin 29)
  | fp
  | lr
  deriving DecidableEq

def Gpr.value (cpu : CpuContext) : Gpr → UInt64
  | .x i => cpu.x i
  | .fp => cpu.fp
  | .lr => cpu.lr

inductive DataReg where
  | gpr (r : Gpr)
  | zr
  deriving DecidableEq

def DataReg.value (cpu : CpuContext) : DataReg → UInt64
  | .gpr r => r.value cpu
  | .zr => 0

inductive BaseReg where
  | gpr (r : Gpr)
  | sp
  deriving DecidableEq

def BaseReg.value (cpu : CpuContext) : BaseReg → UInt64
  | .gpr r => r.value cpu
  | .sp => cpu.sp

inductive Size where
  | b
  | h
  | w
  | x
  deriving DecidableEq

def Size.bytes : Size → ℕ
  | .b => 1
  | .h => 2
  | .w => 4
  | .x => 8

inductive SingleKind where
  | str
  | stur
  | stlr
  deriving DecidableEq

inductive PairSize where
  | w
  | x
  deriving DecidableEq

def PairSize.size : PairSize → Size
  | .w => .w
  | .x => .x

inductive Store where
  | single (kind : SingleKind) (size : Size) (rt : DataReg)
  | pair (nonTemporal : Bool) (size : PairSize) (rt rt2 : DataReg)
  | exclusive (release : Bool) (size : Size) (rs rt : DataReg)

inductive IndexExtend where
  | uxtw
  | lsl
  | sxtw
  | sxtx
  deriving DecidableEq

inductive AddressMode where
  | offset (disp : UInt64)
  | preIndex (disp : UInt64)
  | postIndex (disp : UInt64)
  | register (index : DataReg) (ext : IndexExtend) (amount : UInt8)

structure Address where
  base : BaseReg
  mode : AddressMode

def IndexExtend.extend (v : UInt64) : IndexExtend → UInt64
  | .uxtw => v.toUInt32.toUInt64
  | .lsl => v
  | .sxtw => v.toUInt32.toInt32.toInt64.toUInt64
  | .sxtx => v

def AddressMode.offsetFrom (cpu : CpuContext) : AddressMode → UInt64
  | .offset disp => disp
  | .preIndex disp => disp
  | .postIndex _ => 0
  | .register index ext amount => ext.extend (index.value cpu) <<< amount.toUInt64

def Address.effective (a : Address) (cpu : CpuContext) : UInt64 :=
  a.base.value cpu + a.mode.offsetFrom cpu

def regBytes (cpu : CpuContext) (size : ℕ) (r : DataReg) : List UInt8 :=
  (List.range size).map (LittleEndian.byte (r.value cpu).toNat)

def Store.storedBytes (cpu : CpuContext) : Store → List UInt8
  | .single _ size rt => regBytes cpu size.bytes rt
  | .pair _ size rt rt2 => regBytes cpu size.size.bytes rt ++ regBytes cpu size.size.bytes rt2
  | .exclusive _ size _ rt => regBytes cpu size.bytes rt

section Disassembly

def Gpr.xReg : Gpr → Arm64Reg
  | .x i => .x i
  | .fp => .x29
  | .lr => .x30

def Gpr.wReg : Gpr → Arm64Reg
  | .x i => .w i
  | .fp => .w29
  | .lr => .w30

def DataReg.xReg : DataReg → Arm64Reg
  | .gpr r => r.xReg
  | .zr => .xzr

def DataReg.wReg : DataReg → Arm64Reg
  | .gpr r => r.wReg
  | .zr => .wzr

def DataReg.named (r : DataReg) : Size → Arm64Reg
  | .x => r.xReg
  | _ => r.wReg

def BaseReg.reg : BaseReg → Arm64Reg
  | .gpr r => r.xReg
  | .sp => .sp

def Size.suffix : Size → List Char
  | .b => "b".toList
  | .h => "h".toList
  | .w => []
  | .x => []

def Store.mnemonic : Store → List Char
  | .single .str size _ => "str".toList ++ size.suffix
  | .single .stur size _ => "stur".toList ++ size.suffix
  | .single .stlr size _ => "stlr".toList ++ size.suffix
  | .pair false _ _ _ => "stp".toList
  | .pair true _ _ _ => "stnp".toList
  | .exclusive false size _ _ => "stxr".toList ++ size.suffix
  | .exclusive true size _ _ => "stlxr".toList ++ size.suffix

def Store.regs : Store → List Arm64Reg
  | .single _ size rt => [rt.named size]
  | .pair _ size rt rt2 => [rt.named size.size, rt2.named size.size]
  | .exclusive _ size rs rt => [rs.wReg, rt.named size]

def IndexExtend.extender : IndexExtend → Extender
  | .uxtw => .uxtw
  | .lsl => .invalid
  | .sxtw => .sxtw
  | .sxtx => .sxtx

def IndexExtend.indexReg (index : DataReg) : IndexExtend → Arm64Reg
  | .uxtw => index.wReg
  | .sxtw => index.wReg
  | _ => index.xReg

def Address.memOperand (a : Address) : MemOperand where
  base := a.base.reg
  index := match a.mode with
    | .register index ext _ => ext.indexReg index
    | _ => .invalid
  ext := match a.mode with
    | .register _ ext _ => ext.extender
    | _ => .invalid
  shift := match a.mode with
    | .register _ _ amount => amount
    | _ => 0
  disp := match a.mode with
    | .offset disp => disp
    | .preIndex disp => disp
    | _ => 0

def Address.trailing (a : Address) : List Operand :=
  match a.mode with
  | .postIndex disp => [.imm disp]
  | _ => []

def Store.disassembled (i : Store) (a : Address) : CsInsn where
  mnemonic := i.mnemonic
  operands := i.regs.map Operand.reg ++ .mem a.memOperand :: a.trailing

end Disassembly

def InstrumentsStore (cfg : StalkerConfig) (next : ℕ) (insn : CsInsn) : Prop :=
  ∃ cd, .storeCallout cd ∈ (transformInsn cfg next insn).1

/-- The store sends its bytes to the node, once. -/
def StoreSends (cfg : StalkerConfig) (next : ℕ) (i : Store) (a : Address) (node : UInt16)
    (s : Machine) : Prop :=
  (runCallouts (transformInsn cfg next (i.disassembled a)).1 s).sent
    = s.sent ++ [⟨node, a.effective s.cpu, i.storedBytes s.cpu⟩]

def Store.DataRead (cpu : CpuContext) : Store → Prop
  | .exclusive _ .x rs rt =>
    (rs.value cpu).toNat % 256 ^ 4 = (rt.value cpu).toNat % 256 ^ 4
      ∧ (rt.value cpu).toNat % 256 ^ 4 = (rt.value cpu).toNat / 256 ^ 4
  | .exclusive _ _ _ _ => False
  | _ => True

section Analysis

variable (i : Store) (a : Address) (cpu : CpuContext)

theorem isArm64Load_mnemonic : isArm64Load i.mnemonic = false := by
  cases i with
  | single kind size _ => cases kind <;> cases size <;> rfl
  | pair nonTemporal _ _ _ => cases nonTemporal <;> rfl
  | exclusive release size _ _ => cases release <;> cases size <;> rfl

theorem isArm64Store_mnemonic : isArm64Store i.mnemonic = true := by
  cases i with
  | single kind size _ => cases kind <;> cases size <;> rfl
  | pair nonTemporal _ _ _ => cases nonTemporal <;> rfl
  | exclusive release size _ _ => cases release <;> cases size <;> rfl

theorem findMem_append (regs : List Arm64Reg) (m : MemOperand) (ops : List Operand)
    : findMem (regs.map Operand.reg ++ .mem m :: ops) = some (regs.map Operand.reg, m) := by
  induction regs with
  | nil => rfl
  | cons reg regs ih =>
    rw [List.map_cons, List.cons_append, findMem, ih]
    . rfl
    . intro m h
      cases h

theorem isSupportedGpr_xReg (r : DataReg) : isSupportedGpr r.xReg = true := by
  rcases r with (_ | _ | _) | _ <;> rfl

theorem isSupportedGpr_wReg (r : DataReg) : isSupportedGpr r.wReg = true := by
  rcases r with (_ | _ | _) | _ <;> rfl

theorem isSupportedGpr_named (r : DataReg) (size : Size)
    : isSupportedGpr (r.named size) = true := by
  cases size with
  | x => exact isSupportedGpr_xReg r
  | _ => exact isSupportedGpr_wReg r

theorem isSupportedGpr_regs : ∀ reg ∈ i.regs, isSupportedGpr reg = true := by
  cases i <;> simp [Store.regs, isSupportedGpr_named, isSupportedGpr_wReg]

theorem filterMap_supportedReg {regs : List Arm64Reg} (h : ∀ reg ∈ regs, isSupportedGpr reg = true)
    : (regs.map Operand.reg).filterMap supportedReg = regs := by
  rw [List.filterMap_map]
  calc regs.filterMap (supportedReg ∘ Operand.reg)
    _ = regs.filterMap some := by
      apply List.filterMap_congr
      intro reg hreg
      simp [supportedReg, h reg hreg]
    _ = regs := List.filterMap_some

def Store.width : Store → Size
  | .single _ size _ => size
  | .pair _ size _ _ => size.size
  | .exclusive _ .x _ _ => .w
  | .exclusive _ size _ _ => size

theorem isWordReg_wReg (r : DataReg) : isWordReg r.wReg = true := by
  rcases r with (_ | _ | _) | _ <;> rfl

theorem isWordReg_xReg (r : DataReg) : isWordReg r.xReg = false := by
  rcases r with (_ | _ | _) | _ <;> rfl

theorem arm64MemoryWidth_eq (reg : Arm64Reg) : arm64MemoryWidth i.mnemonic reg
        =
      match i with
      | .single _ .b _ | .exclusive _ .b _ _ => 1
      | .single _ .h _ | .exclusive _ .h _ _ => 2
      | _ => if isWordReg reg then 4 else 8 := by
  cases i with
  | single kind size rt => cases kind <;> cases size <;> rfl
  | pair nonTemporal size rt rt2 => cases nonTemporal <;> rfl
  | exclusive release size rs rt => cases release <;> cases size <;> rfl

theorem arm64MemoryWidth_mnemonic {reg : Arm64Reg} {rest : List Arm64Reg} (h : i.regs = reg :: rest)
    : arm64MemoryWidth i.mnemonic reg = i.width.bytes := by
  rw [arm64MemoryWidth_eq]
  cases i with
  | single kind size rt =>
    cases h
    cases size with
    | b => rfl
    | h => rfl
    | w => exact if_pos (isWordReg_wReg rt)
    | x => exact if_neg (ne_true_of_eq_false (isWordReg_xReg rt))
  | pair nonTemporal size rt rt2 =>
    cases h
    cases size with
    | w => exact if_pos (isWordReg_wReg rt)
    | x => exact if_neg (ne_true_of_eq_false (isWordReg_xReg rt))
  | exclusive release size rs rt =>
    cases h
    cases size with
    | b => rfl
    | h => rfl
    | w | x => exact if_pos (isWordReg_wReg rs)

def memInfo : Arm64MemInfo where
  isLoad := false
  isStore := true
  regs := i.regs
  accessSize := i.width.bytes * i.regs.length
  perRegSize := i.width.bytes
  baseReg := a.memOperand.base
  indexReg := a.memOperand.index
  indexExt := a.memOperand.ext
  indexShift := a.memOperand.shift
  disp := a.memOperand.disp

theorem Size.bytes_le (size : Size) : size.bytes ≤ 8 := by
  cases size <;> decide

theorem Size.bytes_pos (size : Size) : 0 < size.bytes := by
  cases size <;> decide

theorem Store.length_regs : i.regs.length = 1 ∨ i.regs.length = 2 := by
  cases i with
  | single => exact Or.inl rfl
  | pair | exclusive => exact Or.inr rfl

theorem analyzeArm64Mem_disassembled {cfg : StalkerConfig} (hhook : cfg.hookMov = true)
    : analyzeArm64Mem (i.disassembled a) cfg = some (memInfo i a) := by
  have hle := i.width.bytes_le
  have hpos := i.width.bytes_pos
  have hlength := i.length_regs
  unfold analyzeArm64Mem Store.disassembled
  dsimp only
  rw [isArm64Load_mnemonic, isArm64Store_mnemonic, hhook, findMem_append]
  simp only [Bool.not_false, Bool.not_true, Bool.and_false, Bool.false_eq_true, if_false]
  rw [filterMap_supportedReg (isSupportedGpr_regs i), List.take_of_length_le (by omega)]
  cases hregs : i.regs with
  | nil => simp [hregs] at hlength
  | cons reg rest =>
    have hsize : i.width.bytes * (rest.length + 1) ≤ 16
        ∧ 0 < i.width.bytes * (rest.length + 1) := by
      rw [hregs, List.length_cons] at hlength
      rcases hlength with hlength | hlength <;> rw [hlength] <;> omega
    dsimp only
    rw [arm64MemoryWidth_mnemonic i hregs]
    rw [if_neg (by omega), if_neg (by omega)]
    simp [memInfo, hregs]

theorem readReg_xReg (r : DataReg) : readReg cpu r.xReg = r.value cpu := by
  rcases r with (_ | _ | _) | _ <;> rfl

theorem readReg_wReg (r : DataReg) : readReg cpu r.wReg = (r.value cpu).toUInt32.toUInt64 := by
  rcases r with (_ | _ | _) | _ <;> rfl

theorem readReg_base (r : BaseReg) : readReg cpu r.reg = r.value cpu := by
  rcases r with (_ | _ | _) | _ <;> rfl

theorem xReg_ne_invalid (r : DataReg) : r.xReg ≠ .invalid := by
  rcases r with (_ | _ | _) | _ <;> exact Arm64Reg.noConfusion

theorem wReg_ne_invalid (r : DataReg) : r.wReg ≠ .invalid := by
  rcases r with (_ | _ | _) | _ <;> exact Arm64Reg.noConfusion

theorem base_ne_invalid (r : BaseReg) : r.reg ≠ .invalid := by
  rcases r with (_ | _ | _) | _ <;> exact Arm64Reg.noConfusion

theorem indexReg_ne_invalid (index : DataReg) (ext : IndexExtend)
    : ext.indexReg index ≠ .invalid := by
  cases ext with
  | uxtw | sxtw => exact wReg_ne_invalid index
  | lsl | sxtx => exact xReg_ne_invalid index

theorem extendIndex_eq (index : DataReg) (ext : IndexExtend)
    : extendIndex (readReg cpu (ext.indexReg index)) ext.extender
        = ext.extend (index.value cpu) := by
  cases ext with
  | uxtw =>
    change (readReg cpu index.wReg).toUInt32.toUInt64 = _
    rw [readReg_wReg, UInt32.toUInt32_toUInt64]
    rfl
  | sxtw =>
    change (readReg cpu index.wReg).toUInt32.toInt32.toInt64.toUInt64 = _
    rw [readReg_wReg, UInt32.toUInt32_toUInt64]
    rfl
  | lsl | sxtx => exact readReg_xReg cpu index

theorem computeEa_memInfo : computeEa cpu (memInfo i a) = a.effective cpu := by
  obtain ⟨base, mode⟩ := a
  have hbase := readReg_base cpu base
  have hne := base_ne_invalid base
  cases mode with
  | register index ext amount =>
    have hindex := indexReg_ne_invalid index ext
    simp [computeEa, memInfo, Address.memOperand, Address.effective, AddressMode.offsetFrom, hne,
      hbase, hindex, extendIndex_eq]
  | _ =>
    simp [computeEa, memInfo, Address.memOperand, Address.effective, AddressMode.offsetFrom, hne,
      hbase, UInt64.add_comm]

end Analysis

section Bytes

variable (cpu : CpuContext) {size : ℕ}

def namedBytes (size : ℕ) (reg : Arm64Reg) : List UInt8 :=
  (List.range size).map (LittleEndian.byte (readReg cpu reg).toNat)

theorem storeRegs_of_lt {k : ℕ} (regs : List Arm64Reg)
    : ∀ i buf, k < i * size → storeRegs cpu size buf i regs k = buf k := by
  induction regs with
  | nil =>
    intro i buf _
    rfl
  | cons reg regs ih =>
    intro i buf hk
    have hnext : k < (i + 1) * size := by
      rw [Nat.succ_mul]
      omega
    unfold storeRegs
    rw [ih (i + 1) _ hnext, storeLe, if_neg (by omega)]

theorem map_storeRegs (hsize : size ≤ 8) (regs : List Arm64Reg)
    : ∀ i buf, (List.range (size * regs.length)).map
        (fun k => storeRegs cpu size buf i regs (i * size + k))
          = regs.flatMap (namedBytes cpu size) := by
  induction regs with
  | nil =>
    intro i buf
    rfl
  | cons reg regs ih =>
    intro i buf
    have hlength : size * (reg :: regs).length = size + size * regs.length := by
      rw [List.length_cons, Nat.mul_succ, Nat.add_comm]
    rw [hlength, List.range_add, List.map_append, List.flatMap_cons]
    congr 1
    . apply List.map_congr_left
      intro k hk
      rw [List.mem_range] at hk
      have hnext : i * size + k < (i + 1) * size := by
        rw [Nat.succ_mul]
        omega
      unfold storeRegs
      rw [storeRegs_of_lt cpu regs (i + 1) _ hnext, storeLe, if_pos (by omega)]
      rw [Nat.add_sub_cancel_left]
    . rw [List.map_map, ← ih (i + 1) (storeLe buf (i * size) (readReg cpu reg) size)]
      apply List.map_congr_left
      intro k _
      have hindex : i * size + (size + k) = (i + 1) * size + k := by
        rw [Nat.succ_mul]
        omega
      simp only [Function.comp_apply, storeRegs, hindex]

theorem namedBytes_xReg (r : DataReg) : namedBytes cpu size r.xReg = regBytes cpu size r := by
  rw [namedBytes, readReg_xReg]
  rfl

theorem namedBytes_wReg (hsize : size ≤ 4) (r : DataReg)
    : namedBytes cpu size r.wReg = regBytes cpu size r := by
  have hdvd : 256 ^ size ∣ 2 ^ 32 := by
    exact Nat.pow_dvd_pow 256 hsize
  rw [namedBytes, readReg_wReg, regBytes, LittleEndian.map_byte_eq_iff]
  rw [UInt32.toNat_toUInt64, UInt64.toNat_toUInt32, Nat.mod_mod_of_dvd _ hdvd]
  exact ⟨rfl, rfl⟩

theorem namedBytes_named (r : DataReg) (size : Size)
    : namedBytes cpu size.bytes (r.named size) = regBytes cpu size.bytes r := by
  cases size with
  | x => exact namedBytes_xReg cpu r
  | b | h | w => exact namedBytes_wReg cpu (by decide) r

theorem length_regBytes (r : DataReg) : (regBytes cpu size r).length = size := by
  rw [regBytes, List.length_map, List.length_range]

theorem flatMap_namedBytes_eq_iff (i : Store)
    : i.regs.flatMap (namedBytes cpu i.width.bytes) = i.storedBytes cpu ↔ i.DataRead cpu := by
  cases i with
  | single kind size rt | pair nonTemporal size rt rt2 =>
    simp [Store.regs, Store.width, Store.storedBytes, Store.DataRead, namedBytes_named]
  | exclusive release size rs rt =>
    have hlength {n : ℕ} (hn : 0 < n) (front : List UInt8) (hfront : front.length = n)
        : front ++ regBytes cpu n rt ≠ regBytes cpu n rt := by
      intro h
      have := congrArg List.length h
      rw [List.length_append, length_regBytes, hfront] at this
      omega
    cases size with
    | x =>
      have hhigh : (rt.value cpu).toNat / 256 ^ 4 < 256 ^ 4 := by
        have := (rt.value cpu).toNat_lt
        omega
      change namedBytes cpu 4 rs.wReg ++ (namedBytes cpu 4 rt.xReg ++ []) = regBytes cpu 8 rt ↔ _
      rw [List.append_nil, namedBytes_wReg cpu (by decide), namedBytes_xReg]
      unfold regBytes
      rw [LittleEndian.map_byte_add _ 4 4]
      have hsplit {l l' r r' : List UInt8} (hl : l.length = l'.length)
          : l ++ r = l' ++ r' ↔ l = l' ∧ r = r' :=
        ⟨fun h => List.append_inj h hl, fun ⟨h, h'⟩ => by rw [h, h']⟩
      rw [hsplit (by simp)]
      rw [LittleEndian.map_byte_eq_iff, LittleEndian.map_byte_eq_iff, Nat.mod_eq_of_lt hhigh]
      simp [Store.DataRead]
    | _ =>
      simp only [Store.regs, Store.width, Store.storedBytes, Store.DataRead, List.flatMap_cons,
        List.flatMap_nil, List.append_nil, namedBytes_named, iff_false]
      apply hlength (by decide)
      simp [namedBytes]

end Bytes

section Node

variable {c : Config} {ea : UInt64} {node : UInt16}

theorem calloutNode_eq_some_iff
    : calloutNode c ea = some node ↔ StalkerMov.callout c ea = .remote node := by
  unfold calloutNode StalkerMov.callout StalkerMov.calloutNode routeNode
  by_cases hrange : StalkerMov.isInPgasRange ea c.base c.size = true
  . by_cases hnodes : c.numNodes = 0
    . simp [hrange, hnodes]
    . by_cases hregion : c.size / c.numNodes.toUInt64 = 0
      . simp [hrange, hnodes, hregion]
      . simp only [hrange, hnodes, hregion, Bool.not_true, decide_false, Bool.or_false,
          Bool.false_eq_true, if_false]
        simp only [bne_iff_ne, ne_eq, hnodes, not_false_eq_true, if_true, Bool.true_and]
        generalize ((ea - c.base) / (c.size / c.numNodes.toUInt64)).toUInt16 = found
        by_cases hlast : c.numNodes ≤ found
        . simp only [hlast, if_true]
          split <;> simp
        . simp only [hlast, if_false]
          split <;> simp
  . simp [hrange]

end Node

section Sends

variable {cfg : StalkerConfig} {next : ℕ} {i : Store} {a : Address} {node : UInt16} {s : Machine}

theorem transformInsn_disassembled : (transformInsn cfg next (i.disassembled a)).1
        =
      if cfg.hookMov = true ∧ isStackRelative a.base.reg = false ∧ next < calloutPoolCapacity then
        [.storeCallout ⟨cfg.toConfig, memInfo i a⟩, .keep (i.disassembled a)]
      else
        [.keep (i.disassembled a)] := by
  cases hhook : cfg.hookMov with
  | false =>
    have hanalyze : analyzeArm64Mem (i.disassembled a) cfg = none := by
      unfold analyzeArm64Mem
      simp [hhook]
    rw [transformInsn, hanalyze]
    simp
  | true =>
    have hruntime : ¬((memInfo i a).baseReg = .invalid ∧ (memInfo i a).indexReg = .invalid
        ∧ (!StalkerMov.isInPgasRange (memInfo i a).disp cfg.base cfg.size) = true) :=
      fun h => base_ne_invalid a.base h.1
    have hbase : (memInfo i a).baseReg = a.base.reg := rfl
    rw [transformInsn, analyzeArm64Mem_disassembled i a hhook]
    dsimp only
    rw [if_neg hruntime, hbase]
    cases isStackRelative a.base.reg with
    | true => simp
    | false =>
      by_cases hpool : next < calloutPoolCapacity
      . have hload : (memInfo i a).isLoad = false := rfl
        simp [hpool, hload, Nat.not_le.mpr hpool]
      . simp [hpool, Nat.not_lt.mp hpool]

theorem instrumentsStore_iff : InstrumentsStore cfg next (i.disassembled a)
        ↔ cfg.hookMov = true ∧ isStackRelative a.base.reg = false ∧ next < calloutPoolCapacity := by
  unfold InstrumentsStore
  rw [transformInsn_disassembled]
  split
  next h => exact iff_of_true ⟨_, List.mem_cons_self⟩ h
  next h => exact iff_of_false (by simp) h

theorem sent_arm64StoreCallout (c : Config) : (arm64StoreCallout ⟨c, memInfo i a⟩ s).sent
        =
      match calloutNode c (a.effective s.cpu) with
      | none => s.sent
      | some node =>
        s.sent ++ [⟨node, a.effective s.cpu, i.regs.flatMap (namedBytes s.cpu i.width.bytes)⟩] := by
  unfold arm64StoreCallout
  dsimp only
  rw [computeEa_memInfo, ← map_storeRegs s.cpu i.width.bytes_le i.regs 0 (fun _ => 0)]
  simp only [Nat.zero_mul, Nat.zero_add]
  cases calloutNode c (a.effective s.cpu) <;> rfl

theorem arm64StoreSends_iff (cfg : StalkerConfig) (next : ℕ) (i : Store) (a : Address)
    (node : UInt16) (s : Machine) (hinstruments : InstrumentsStore cfg next (i.disassembled a))
    (hremote : RemotePart cfg.toConfig node (a.effective s.cpu))
    : StoreSends cfg next i a node s
        ↔
      cfg.clamp (cfg.quot (a.effective s.cpu) % 2 ^ 16) = node ∧ i.DataRead s.cpu := by
  rw [← hremote.callout_eq_iff, ← calloutNode_eq_some_iff, ← flatMap_namedBytes_eq_iff]
  unfold StoreSends
  rw [transformInsn_disassembled, if_pos (instrumentsStore_iff.mp hinstruments)]
  change (arm64StoreCallout ⟨cfg.toConfig, memInfo i a⟩ s).sent = _ ↔ _
  rw [sent_arm64StoreCallout]
  cases calloutNode cfg.toConfig (a.effective s.cpu) with
  | none => simp
  | some found => simp

end Sends

def pointing : Machine where
  cpu :=
    { x := fun _ => 1
      fp := 0
      lr := 0x1010
      sp := 0 }
  mem _ := 0
  remote _ _ := 0
  sent := []

def atLr : Address where
  base := .gpr .lr
  mode := .offset 0

theorem instrumentsStore_atLr (i : Store) : InstrumentsStore twoNodes 0 (i.disassembled atLr) :=
  instrumentsStore_iff.mpr ⟨rfl, rfl, by decide⟩

theorem remotePart_atLr : RemotePart twoNodes.toConfig 1 (atLr.effective pointing.cpu) :=
  remotePart_twoNodes

def stpX28 : Store := .pair false .x (.gpr (.x (Fin.last 28))) (.gpr .fp)

theorem storeSends_stpX28 : InstrumentsStore twoNodes 0 (stpX28.disassembled atLr)
        ∧ RemotePart twoNodes.toConfig 1 (atLr.effective pointing.cpu)
        ∧ StoreSends twoNodes 0 stpX28 atLr 1 pointing := by
  refine ⟨instrumentsStore_atLr _, remotePart_atLr, ?_⟩
  rw [arm64StoreSends_iff _ _ _ _ _ _ (instrumentsStore_atLr _) remotePart_atLr]
  exact ⟨by decide, trivial⟩

def stxrX28 : Store := .exclusive false .x (.gpr .fp) (.gpr (.x (Fin.last 28)))

theorem not_storeSends_stxrX28 : InstrumentsStore twoNodes 0 (stxrX28.disassembled atLr)
        ∧ RemotePart twoNodes.toConfig 1 (atLr.effective pointing.cpu)
        ∧ ¬StoreSends twoNodes 0 stxrX28 atLr 1 pointing := by
  refine ⟨instrumentsStore_atLr _, remotePart_atLr, ?_⟩
  unfold StoreSends
  decide

end Bpftime.Pgas.Stalker.Arm64
