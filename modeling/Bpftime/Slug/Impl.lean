import Bpftime.Data.WordMem

namespace Bpftime.Slug

open WordMem (Mem shift)

structure SlugConfig where
  cxlEnabled : Bool
  cxlSendWrites : Bool
  regionBase : UInt64
  regionSize : UInt64
  cxlAddrBase : UInt64

inductive AccessKind where
  | load
  | store
  | atomic
  | memcpyRead
  | memcpyWrite
  | memset
  | unknown (kind : UInt32)
  deriving DecidableEq

inductive CxlOp where
  | read
  | write
  deriving DecidableEq

structure CxlServerRequest where
  opType : CxlOp
  addr : UInt64
  size : UInt64
  timestamp : UInt64
  value : UInt64 := 0
  expected : UInt64 := 0
  data : ℕ → UInt8 := fun _ => 0

structure Environment where
  cfg : SlugConfig
  mem : Mem
  nowNs : ℕ → UInt64
  server : ℕ → Bool

structure Outcome where
  requests : List CxlServerRequest
  failed : Bool

def isReadKind : AccessKind → Bool
  | .load => true
  | .atomic => true
  | .memcpyRead => true
  | _ => false

def isWriteKind : AccessKind → Bool
  | .store => true
  | .atomic => true
  | .memcpyWrite => true
  | .memset => true
  | _ => false

def translateCxlAddr (cfg : SlugConfig) (addr : UInt64) : UInt64 :=
  if cfg.regionSize = 0 then addr else cfg.cxlAddrBase + (addr - cfg.regionBase)

def exchange (env : Environment) (k : ℕ) : Bool := env.cfg.cxlEnabled && env.server k

def requestOp (kind : AccessKind) : CxlOp :=
  if isWriteKind kind && !isReadKind kind then .write else .read

def chunkAt (current remaining : UInt64) : UInt64 :=
  let offset := current &&& 63
  let chunk := 64 - offset
  if chunk > remaining then remaining else chunk

def requestAt (env : Environment) (addr : UInt64) (kind : AccessKind) (k : ℕ)
    (remaining current sourceOffset : UInt64) : CxlServerRequest :=
  let chunk := chunkAt current remaining
  { opType := requestOp kind
    addr := current
    size := chunk
    timestamp := env.nowNs k
    data :=
      if requestOp kind = .write ∧ env.cfg.cxlSendWrites = true then
        fun i => if i < chunk.toNat then env.mem (shift (addr + sourceOffset) i) else 0
      else
        fun _ => 0 }

def sendLoop (env : Environment) (addr : UInt64) (kind : AccessKind)
    : ℕ → ℕ → UInt64 → UInt64 → UInt64 → Option Outcome
  | fuel, k, remaining, current, sourceOffset =>
    if remaining = 0 then
      some ⟨[], false⟩
    else
      match fuel with
      | 0 => none
      | fuel + 1 =>
        let req := requestAt env addr kind k remaining current sourceOffset
        if exchange env k then
          (sendLoop env addr kind fuel (k + 1) (remaining - req.size) (current + req.size)
            (sourceOffset + req.size)).map fun out => { out with requests := req :: out.requests }
        else
          some ⟨[req], true⟩

def sendCxlAccess (env : Environment) (fuel : ℕ) (addr size : UInt64) (kind : AccessKind)
    : Option Outcome :=
  if !env.cfg.cxlEnabled || size = 0 then
    some ⟨[], false⟩
  else
    sendLoop env addr kind fuel 0 size (translateCxlAddr env.cfg addr) 0

end Bpftime.Slug
