import Bpftime.Data.WordMem
import Bpftime.Pgas.Route

namespace Bpftime.Pgas

open WordMem (Mem put shift copyUp copyDown fill)

structure Memory where
  loc : Mem
  node : UInt16 → Mem

abbrev CopyFn := Mem → UInt64 → UInt64 → UInt64 → Mem

structure Hooks where
  config : Config
  useNodeLocalOffsets : Bool
  /-- What the interceptor has saved as the original functions. -/
  origMemcpy : Option CopyFn
  origMemmove : Option CopyFn

/-- What the remote nodes do: which have a connection, and which buffers can be allocated. -/
structure Link where
  connected : UInt16 → Bool
  allocates : UInt64 → Bool

abbrev SetFn := Mem → UInt64 → Int32 → UInt64 → Mem

def setByte (c : Int32) : UInt8 := c.toUInt32.toUInt8

namespace Hooks

variable (h : Hooks) (link : Link)

def routeToNode (addr : UInt64) : UInt16 := AttachEntry.routeToNode h.config addr

def translateAddr (localAddr : UInt64) (targetNode : UInt16) : UInt64 :=
  Hooker.translateAddr h.config h.useNodeLocalOffsets localAddr targetNode

def remoteRead (m : Memory) (nodeId : UInt16) (addr dest size : UInt64) : Memory :=
  if nodeId = h.config.localNodeId then
    { m with loc := put m.loc dest (fun i => m.loc (shift addr i)) size.toNat }
  else if link.connected nodeId then
    let remoteAddr := h.translateAddr addr nodeId
    { m with loc := put m.loc dest (fun i => m.node nodeId (shift remoteAddr i)) size.toNat }
  else
    m

def remoteWrite (m : Memory) (nodeId : UInt16) (addr : UInt64) (src : ℕ → UInt8) (size : UInt64)
    : Memory :=
  if nodeId = h.config.localNodeId then
    { m with loc := put m.loc addr src size.toNat }
  else if link.connected nodeId then
    let served := put (m.node nodeId) (h.translateAddr addr nodeId) src size.toNat
    { m with node := Function.update m.node nodeId served }
  else
    m

def pgasRemoteMemcpyHandler (m : Memory) (dest src n : UInt64) (targetNode : UInt16)
    (destIsRemote : Bool) : Memory :=
  if destIsRemote then
    h.remoteWrite link m targetNode dest (fun i => m.loc (shift src i)) n
  else
    h.remoteRead link m targetNode src dest n

def pgasMemcpyOverrideHandler (m : Memory) (dest src n : UInt64) : Memory :=
  let destNode := h.routeToNode dest
  let srcNode := h.routeToNode src
  if destNode ≠ h.config.localNodeId then
    h.pgasRemoteMemcpyHandler link m dest src n destNode true
  else if srcNode ≠ h.config.localNodeId then
    h.pgasRemoteMemcpyHandler link m dest src n srcNode false
  else
    match h.origMemcpy with
    | some realFn => { m with loc := realFn m.loc dest src n }
    | none => { m with loc := copyUp m.loc dest src n.toNat }

def pgasMemmoveOverrideHandler (m : Memory) (dest src n : UInt64) : Memory :=
  let isRemote := h.routeToNode dest != h.config.localNodeId
  let destNode := h.routeToNode dest
  let srcNode := h.routeToNode src
  if isRemote && destNode != h.config.localNodeId then
    h.pgasRemoteMemcpyHandler link m dest src n destNode true
  else if isRemote && srcNode != h.config.localNodeId then
    h.pgasRemoteMemcpyHandler link m dest src n srcNode false
  else
    match h.origMemmove with
    | some realFn => { m with loc := realFn m.loc dest src n }
    | none =>
      if dest < src then { m with loc := copyUp m.loc dest src n.toNat }
      else { m with loc := copyDown m.loc dest src n.toNat }

def pgasRemoteMemsetHandler (m : Memory) (s : UInt64) (c : Int32) (n : UInt64)
    (targetNode : UInt16) : Memory :=
  if n ≤ 4096 then
    h.remoteWrite link m targetNode s (fun _ => setByte c) n
  else if link.allocates n then
    h.remoteWrite link m targetNode s (fun _ => setByte c) n
  else
    m

def pgasMemsetOverrideHandler (origMemset : Option SetFn) (m : Memory) (s : UInt64) (c : Int32)
    (n : UInt64) : Memory :=
  let targetNode := h.routeToNode s
  let isRemote := targetNode != h.config.localNodeId
  if isRemote then
    h.pgasRemoteMemsetHandler link m s c n targetNode
  else
    match origMemset with
    | some realFn => { m with loc := realFn m.loc s c n }
    | none => { m with loc := fill m.loc s (setByte c) n.toNat }

end Hooks

end Bpftime.Pgas
