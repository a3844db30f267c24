import Bpftime.Data.WordMem
import Bpftime.Pgas.Route

namespace Bpftime.Pgas.Preload

open WordMem (Mem shift put move)

structure Globals where
  initialized : Bool
  routing : State
  cxlmemsimConnected : Bool
  cxlmemsimCtx : Bool

structure Memories where
  loc : Mem
  server : Mem
  /-- How often the server has been called. -/
  calls : ℕ

abbrev Faults := ℕ → Bool

def cxlmemsimRemoteLoad (faults : Faults) (st : Memories) (addr : UInt64)
    : Option (ℕ → UInt8) × Memories :=
  let called := { st with calls := st.calls + 1 }
  if faults st.calls then
    (none, called)
  else
    (some fun i => st.server (shift addr i), called)

def cxlmemsimRemoteStore (faults : Faults) (st : Memories) (addr : UInt64) (buf : ℕ → UInt8) (n : ℕ)
    : Bool × Memories :=
  let called := { st with calls := st.calls + 1 }
  if faults st.calls then
    (false, called)
  else
    (true, { called with server := put st.server addr buf n })

def pgasOrigMemmove (st : Memories) (dest src : UInt64) (n : ℕ) : Memories :=
  { st with loc := move st.loc dest src n }

def chunkSize (remaining : ℕ) : ℕ := if remaining > 4096 then 4096 else remaining

def chunkOffset (copyBackward : Bool) (n remaining : ℕ) : ℕ :=
  if copyBackward then remaining - chunkSize remaining else n - remaining

def copyChunk (faults : Faults) (dest src : UInt64) (offset chunk : ℕ) (st : Memories)
    : Bool × Memories :=
  match cxlmemsimRemoteLoad faults st (shift src offset) with
  | (none, st) => (false, st)
  | (some tempBuf, st) =>
    match cxlmemsimRemoteStore faults st (shift dest offset) tempBuf chunk with
    | (false, st) => (false, st)
    | (true, st) => (true, { st with loc := put st.loc (shift dest offset) tempBuf chunk })

def copyChunks (faults : Faults) (dest src : UInt64) (n : ℕ) (copyBackward : Bool)
    : ℕ → ℕ → Memories → Bool × Memories
  | 0, _, st => (true, st)
  | fuel + 1, remaining, st =>
    if remaining = 0 then
      (true, st)
    else
      let offset := chunkOffset copyBackward n remaining
      match copyChunk faults dest src offset (chunkSize remaining) st with
      | (false, st) => (false, st)
      | (true, st) =>
        copyChunks faults dest src n copyBackward fuel (remaining - chunkSize remaining) st

def copyBackward (dest src : UInt64) (n : ℕ) : Bool := dest > src && (dest - src).toNat < n

def nodeOf (s : State) (addr : UInt64) : Option UInt16 :=
  if isPgasAddr s addr then routeToNode s addr else some s.config.localNodeId

def memmove (g : Globals) (faults : Faults) (st : Memories) (dest src : UInt64) (n : ℕ)
    : Option Memories :=
  let destPgas := isPgasAddr g.routing dest
  let srcPgas := isPgasAddr g.routing src
  if g.initialized && (destPgas || srcPgas) then do
    -- the nodes go into the counters only, but finding them may divide by zero
    let _ ← nodeOf g.routing dest
    let _ ← nodeOf g.routing src
    if g.cxlmemsimConnected && g.cxlmemsimCtx then
      if srcPgas && destPgas then
        match copyChunks faults dest src n (copyBackward dest src n) n n st with
        | (true, st) => return st
        | (false, st) => return pgasOrigMemmove st dest src n
      else if srcPgas then
        match cxlmemsimRemoteLoad faults st src with
        | (some buf, st) => return { st with loc := put st.loc dest buf n }
        | (none, st) => return pgasOrigMemmove st dest src n
      else
        -- the shadow is written whether or not the server was reached
        match cxlmemsimRemoteStore faults st dest (fun i => st.loc (shift src i)) n with
        | (_, st) => return pgasOrigMemmove st dest src n
    else
      return pgasOrigMemmove st dest src n
  else
    some (pgasOrigMemmove st dest src n)

end Bpftime.Pgas.Preload
