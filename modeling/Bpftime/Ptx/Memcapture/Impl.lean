import Bpftime.Data.LittleEndian
import Bpftime.Data.WordMem

/-!
This module contains the memory capture pass, which puts a call behind each load and store of a PTX
text, and the machine that runs the prologues of the functions called there.
-/

namespace Bpftime.Ptx.Memcapture

def ascii (s : String) : List UInt8 := s.toList.map fun c => .ofNat c.toNat

section Pattern

inductive Pattern where
  | one (p : UInt8 → Bool)
  | many (p : UInt8 → Bool)
  | seq (a b : Pattern)
  | alt (a b : Pattern)
  | empty

namespace Pattern

def accepts : Pattern → (List UInt8 → Bool) → List UInt8 → Bool
  | one _, _, [] => false
  | one p, k, c :: rest => p c && k rest
  | many p, k, text => go p k text
  | seq a b, k, text => accepts a (accepts b k) text
  | alt a b, k, text => accepts a k text || accepts b k text
  | empty, k, text => k text
where
  go (p : UInt8 → Bool) (k : List UInt8 → Bool) : List UInt8 → Bool
    | [] => k []
    | c :: rest => k (c :: rest) || (p c && go p k rest)

def regexMatch (p : Pattern) (text : List UInt8) : Bool := p.accepts List.isEmpty text

def sequence (ps : List Pattern) : Pattern := ps.foldr seq empty

def text (s : String) : Pattern := sequence ((ascii s).map fun c => one (· == c))

def oneOf (ps : List String) (p : String) : Pattern := ps.foldr (fun s q => alt (text s) q) (text p)

def plus (p : UInt8 → Bool) : Pattern := seq (one p) (many p)

def opt (p : Pattern) : Pattern := alt p empty

end Pattern

def isSpace (c : UInt8) : Bool := c == 0x20 || (0x09 ≤ c && c ≤ 0x0d)

def isAny (c : UInt8) : Bool := c != 0x0a && c != 0x0d

open Pattern in
def ldStPattern : Pattern :=
  sequence [many isSpace, oneOf ["ld"] "st", text ".",
    opt (oneOf ["const", "global", "local"] "param"), text ".",
    alt (seq (oneOf ["s", "u"] "b") (oneOf ["8", "16", "32"] "64"))
      (alt (text ".b128") (seq (text ".f") (oneOf ["16", "16x2", "32"] "64"))),
    plus (· == 0x20), plus isAny, text ",", many (· == 0x20), plus isAny, text ";", many isSpace]

end Pattern

section Prologue

structure EbpfInst where
  opcode : UInt8
  dst : BitVec 4
  src : BitVec 4
  offset : Int16
  imm : Int32

def EBPF_CLS_LD : UInt8 := 0x00

def EBPF_CLS_ST : UInt8 := 0x02

def EBPF_CLS_STX : UInt8 := 0x03

def EBPF_CLS_ALU64 : UInt8 := 0x07

def EBPF_SRC_IMM : UInt8 := 0x00

def EBPF_SRC_REG : UInt8 := 0x08

def EBPF_SIZE_DW : UInt8 := 0x18

def EBPF_MODE_IMM : UInt8 := 0x00

def EBPF_MODE_MEM : UInt8 := 0x60

def EBPF_OP_SUB64_IMM : UInt8 := EBPF_CLS_ALU64 ||| EBPF_SRC_IMM ||| 0x10

def EBPF_OP_MOV64_REG : UInt8 := EBPF_CLS_ALU64 ||| EBPF_SRC_REG ||| 0xb0

def EBPF_OP_STDW : UInt8 := EBPF_CLS_ST ||| EBPF_MODE_MEM ||| EBPF_SIZE_DW

def EBPF_OP_STXDW : UInt8 := EBPF_CLS_STX ||| EBPF_MODE_MEM ||| EBPF_SIZE_DW

def EBPF_OP_LDDW : UInt8 := EBPF_CLS_LD ||| EBPF_MODE_IMM ||| EBPF_SIZE_DW

variable (signedChar : Bool) (line : List UInt8)

def size : Int32 := .ofNat line.length

def totalLength : Int32 := (size line + 1 + 7) / 8 * 8

def charToUInt64 (c : UInt8) : UInt64 :=
  if signedChar then c.toInt8.toInt64.toUInt64 else c.toUInt64

-- The loop ends at the eighth byte or at the end of the line.
def curr (i : ℕ) : UInt64 :=
  (List.range (min 8 ((size line).toInt.toNat - i))).foldl
    (fun curr j => curr ||| (charToUInt64 signedChar (line.getD (i + j) 0) <<< .ofNat (j * 8))) 0

def chunk (i : ℕ) : List EbpfInst :=
  [ { opcode := EBPF_OP_LDDW, dst := 2, src := 0, offset := 0,
      imm := (curr signedChar line i).toUInt32.toInt32 },
    { opcode := 0, dst := 0, src := 0, offset := 0,
      imm := (curr signedChar line i >>> 32).toUInt32.toInt32 },
    { opcode := EBPF_OP_STXDW, dst := 1, src := 2, offset := .ofNat i, imm := 0 } ]

def indices : List ℕ := (List.range (((size line).toInt.toNat + 7) / 8)).map (8 * ·)

def header : List EbpfInst :=
  [ { opcode := EBPF_OP_STDW, dst := 10, src := 0, offset := -8, imm := 0 },
    { opcode := EBPF_OP_SUB64_IMM, dst := 10, src := 0, offset := 0, imm := totalLength line },
    { opcode := EBPF_OP_MOV64_REG, dst := 1, src := 10, offset := 0, imm := 0 } ]

def prep : List EbpfInst := header line ++ (indices line).flatMap (chunk signedChar line)

end Prologue

structure LdStLine where
  text : List UInt8
  isLdSt : ldStPattern.regexMatch text = true

section Machine

structure Machine where
  regs : BitVec 4 → UInt64
  mem : WordMem.Mem

namespace Machine

def set (s : Machine) (r : BitVec 4) (v : UInt64) : Machine :=
  { s with regs := Function.update s.regs r v }

def store (s : Machine) (a v : UInt64) : Machine :=
  { s with mem := WordMem.put s.mem a (LittleEndian.byte v.toNat) 8 }

end Machine

def Machine.address (s : Machine) (r : BitVec 4) (offset : Int16) : UInt64 :=
  s.regs r + offset.toInt64.toUInt64

def step (inst : EbpfInst) (s : Machine) : Option Machine :=
  if inst.opcode = EBPF_OP_STDW then
    some (s.store (s.address inst.dst inst.offset) inst.imm.toInt64.toUInt64)
  else if inst.opcode = EBPF_OP_STXDW then
    some (s.store (s.address inst.dst inst.offset) (s.regs inst.src))
  else if inst.opcode = EBPF_OP_SUB64_IMM then
    some (s.set inst.dst (s.regs inst.dst - inst.imm.toInt64.toUInt64))
  else if inst.opcode = EBPF_OP_MOV64_REG then
    some (s.set inst.dst (s.regs inst.src))
  else
    none

def exec : List EbpfInst → Machine → Option Machine
  | [], s => some s
  | [inst], s => step inst s
  | inst :: next :: rest, s =>
    if inst.opcode = EBPF_OP_LDDW then
      exec rest (s.set inst.dst
        (inst.imm.toUInt32.toUInt64 ||| (next.imm.toUInt32.toUInt64 <<< 32)))
    else
      (step inst s).bind (exec (next :: rest))

end Machine

end Bpftime.Ptx.Memcapture
