import Bpftime.Data.LittleEndian
import Bpftime.Data.WordMem

namespace Bpftime.Pgas.Stalker

open WordMem (Mem shift put)

inductive Gpr where
  | rax | rbx | rcx | rdx | rsi | rdi | rbp | rsp
  | r8 | r9 | r10 | r11 | r12 | r13 | r14 | r15
  deriving DecidableEq

inductive Width where
  | byte | word | dword | qword
  deriving DecidableEq

def Width.bytes : Width → ℕ
  | .byte => 1
  | .word => 2
  | .dword => 4
  | .qword => 8

inductive HighByte where
  | ah | bh | ch | dh
  deriving DecidableEq

def HighByte.gpr : HighByte → Gpr
  | .ah => .rax
  | .bh => .rbx
  | .ch => .rcx
  | .dh => .rdx

inductive Segment where
  | cs | ds | es | fs | gs | ss
  deriving DecidableEq

inductive X86Reg where
  | invalid
  | gp (r : Gpr) (w : Width)
  | high (h : HighByte)
  | rip
  | eip
  | xmm (i : Fin 32)
  | mm (i : Fin 8)
  | seg (s : Segment)
  | other (id : UInt32)
  deriving DecidableEq

def X86Reg.bytes : X86Reg → ℕ
  | .gp _ w => w.bytes
  | .high _ => 1
  | .xmm _ => 16
  | .mm _ => 8
  | .seg _ => 2
  | _ => 0

inductive InsnId where
  | mov | movabs
  | movzx | movsxd | movsx
  | movnti | movntdq | movntps | movntpd
  | movaps | movups | movapd | movupd | movdqa | movdqu
  | movsd | movss
  | movq | movd
  | other (id : UInt32)
  deriving DecidableEq

structure X86OpMem where
  segment : X86Reg
  base : X86Reg
  index : X86Reg
  scale : UInt64
  disp : UInt64

inductive X86Op where
  | reg (r : X86Reg)
  | imm (v : UInt64)
  | mem (m : X86OpMem)

structure Operand where
  op : X86Op
  size : ℕ

structure CsInsn where
  id : InsnId
  nextAddress : UInt64
  addr32 : Bool
  operands : List Operand

structure Regs where
  gpr : Gpr → UInt64
  rip : UInt64
  rflags : UInt64
  xmm : Fin 32 → BitVec 128
  mm : Fin 8 → UInt64
  seg : Segment → UInt16

structure RemoteWrite where
  node : UInt16
  addr : UInt64
  bytes : List UInt8
  deriving DecidableEq

structure Machine where
  regs : Regs
  fsBase : UInt64
  gsBase : UInt64
  mem : Mem
  remote : UInt16 → Mem
  sent : List RemoteWrite

namespace Regs

def setGpr (regs : Regs) (r : Gpr) (v : UInt64) : Regs :=
  { regs with gpr := Function.update regs.gpr r v }

def carry (regs : Regs) : Bool := regs.rflags &&& 1 = 1

def merge (w : Width) (old : UInt64) (v : ℕ) : UInt64 :=
  match w with
  | .qword => .ofNat v
  | .dword => .ofNat (v % 256 ^ 4)
  | .word => .ofNat (old.toNat / 256 ^ 2 * 256 ^ 2 + v % 256 ^ 2)
  | .byte => .ofNat (old.toNat / 256 * 256 + v % 256)

def mergeHigh (old : UInt64) (v : ℕ) : UInt64 :=
  .ofNat (old.toNat / 256 ^ 2 * 256 ^ 2 + v % 256 * 256 + old.toNat % 256)

-- What a load of a segment register does to the hidden base is left out.
def load (regs : Regs) (dest : X86Reg) (v : ℕ) : Regs :=
  match dest with
  | .gp r w => regs.setGpr r (merge w (regs.gpr r) v)
  | .high h => regs.setGpr h.gpr (mergeHigh (regs.gpr h.gpr) v)
  | .xmm i => { regs with xmm := Function.update regs.xmm i (.ofNat 128 v) }
  | .mm i => { regs with mm := Function.update regs.mm i (.ofNat v) }
  | .seg s => { regs with seg := Function.update regs.seg s (.ofNat v) }
  | _ => regs

def source (regs : Regs) : X86Op → ℕ
  | .reg (.gp r w) => (regs.gpr r).toNat % 256 ^ w.bytes
  | .reg (.high h) => (regs.gpr h.gpr).toNat / 256 % 256
  | .reg (.xmm i) => (regs.xmm i).toNat
  | .reg (.mm i) => (regs.mm i).toNat
  | .reg (.seg s) => (regs.seg s).toNat
  | .reg _ => 0
  | .imm v => v.toNat
  | .mem _ => 0

end Regs

def signExtend (size v : ℕ) : ℕ :=
  if 2 * v < 256 ^ size then v else v + (256 ^ 8 - 256 ^ size)

def extend (id : InsnId) (size v : ℕ) : ℕ :=
  match id with
  | .movsx => signExtend size v
  | .movsxd => signExtend size v
  | _ => v

namespace CsInsn

def addressReg (insn : CsInsn) (regs : Regs) : X86Reg → UInt64
  | .gp r _ => regs.gpr r
  | .rip => insn.nextAddress
  | .eip => insn.nextAddress
  | _ => 0

-- In 64-bit mode the other segments start at 0.
def segmentBase (s : Machine) : X86Reg → UInt64
  | .seg .fs => s.fsBase
  | .seg .gs => s.gsBase
  | _ => 0

def offset (insn : CsInsn) (m : X86OpMem) (regs : Regs) : UInt64 :=
  let sum := m.disp + insn.addressReg regs m.base + insn.addressReg regs m.index * m.scale
  if insn.addr32 then sum.toUInt32.toUInt64 else sum

def address (insn : CsInsn) (m : X86OpMem) (s : Machine) : UInt64 :=
  segmentBase s m.segment + insn.offset m s.regs

def loadRegs (insn : CsInsn) (dest : X86Reg) (regs : Regs) (bytes : ℕ → UInt8) (size : ℕ) : Regs :=
  regs.load dest (extend insn.id size (LittleEndian.value bytes size))

def execute (rest : CsInsn → Machine → Machine) (insn : CsInsn) (s : Machine) : Machine :=
  match insn.operands with
  | [⟨.reg dest, _⟩, ⟨.mem m, size⟩] =>
    { s with regs := insn.loadRegs dest s.regs (fun i => s.mem (shift (insn.address m s) i)) size }
  | [⟨.mem m, size⟩, ⟨.reg r, _⟩] =>
    { s with mem := put s.mem (insn.address m s) (LittleEndian.byte (s.regs.source (.reg r))) size }
  | [⟨.mem m, size⟩, ⟨.imm v, _⟩] =>
    { s with mem := put s.mem (insn.address m s) (LittleEndian.byte (s.regs.source (.imm v))) size }
  | _ => rest insn s

end CsInsn

end Bpftime.Pgas.Stalker
