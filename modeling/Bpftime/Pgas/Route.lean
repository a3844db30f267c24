import Mathlib.Algebra.Group.Nat.Defs

namespace Bpftime.Pgas

structure Config where
  base : UInt64
  size : UInt64
  numNodes : UInt16
  localNodeId : UInt16
  deriving DecidableEq, Repr

def Config.Inside (c : Config) (addr : UInt64) : Prop :=
  c.base.toNat ≤ addr.toNat ∧ addr.toNat < c.base.toNat + c.size.toNat

namespace AttachEntry

def routeToNode (c : Config) (addr : UInt64) : UInt16 :=
  if c.numNodes ≤ 1 then
    c.localNodeId
  else if c.size = 0 then
    c.localNodeId
  else if addr < c.base ∨ c.base + c.size ≤ addr then
    c.localNodeId
  else
    let regionSize := c.size / c.numNodes.toUInt64
    if regionSize = 0 then
      c.localNodeId
    else
      let node := (addr - c.base) / regionSize
      if c.numNodes.toUInt64 ≤ node then c.numNodes - 1 else node.toUInt16

end AttachEntry

namespace Hooker

def isPgasAddr (c : Config) (addr : UInt64) : Bool :=
  c.base ≤ addr && addr < c.base + c.size

def addrToNode (c : Config) (addr : UInt64) : UInt16 :=
  if isPgasAddr c addr then
    if c.numNodes = 0 ∨ c.size = 0 then
      c.localNodeId
    else
      let regionSize := c.size / c.numNodes.toUInt64
      if regionSize = 0 then
        c.localNodeId
      else
        let node := (addr - c.base) / regionSize
        if c.numNodes.toUInt64 ≤ node then c.numNodes - 1 else node.toUInt16
  else
    c.localNodeId

def translateAddr (c : Config) (useNodeLocalOffsets : Bool) (localAddr : UInt64)
    (targetNode : UInt16) : UInt64 :=
  if ¬ useNodeLocalOffsets ∨ ¬ isPgasAddr c localAddr ∨ c.numNodes = 0 ∨ c.size = 0 ∨
      c.numNodes ≤ targetNode then
    localAddr
  else
    let regionSize := c.size / c.numNodes.toUInt64
    if regionSize = 0 then
      localAddr
    else
      let offset := localAddr - c.base
      let nodeBase := targetNode.toUInt64 * regionSize
      if offset < nodeBase then offset else offset - nodeBase

end Hooker

namespace StalkerMov

def isInPgasRange (ea base size : UInt64) : Bool :=
  size != 0 && base ≤ ea && ea - base < size

def calloutNode (c : Config) (ea : UInt64) : Option UInt16 :=
  if isInPgasRange ea c.base c.size && c.numNodes != 0 then
    let regionPerNode := c.size / c.numNodes.toUInt64
    if regionPerNode = 0 then
      none
    else
      let node := ((ea - c.base) / regionPerNode).toUInt16
      if c.numNodes ≤ node then some (c.numNodes - 1) else some node
  else
    none

inductive Access where
  | passthrough
  | remote (node : UInt16)
  deriving DecidableEq, Repr

def callout (c : Config) (ea : UInt64) : Access :=
  match calloutNode c ea with
  | none => .passthrough
  | some node => if node = c.localNodeId then .passthrough else .remote node

def movLoadCallout (c : Config) (ea : UInt64) : Access := callout c ea

def movStoreCallout (c : Config) (ea : UInt64) : Access := callout c ea

def Access.node (c : Config) : Access → UInt16
  | .passthrough => c.localNodeId
  | .remote node => node

end StalkerMov

namespace Preload

structure RegionInfo where
  baseAddr : UInt64
  size : UInt64
  nodeId : UInt16
  deriving DecidableEq, Repr

structure State where
  config : Config
  regions : Option (List RegionInfo)

def RegionInfo.contains (r : RegionInfo) (a : UInt64) : Bool :=
  r.baseAddr ≤ a && a < r.baseAddr + r.size

def isPgasAddr (s : State) (a : UInt64) : Bool :=
  match s.regions with
  | some regions => regions.any fun r => r.contains a
  | none => s.config.base ≤ a && a < s.config.base + s.config.size

def routeToNode (s : State) (addr : UInt64) : Option UInt16 :=
  if s.config.numNodes ≤ 1 then
    some s.config.localNodeId
  else if isPgasAddr s addr then
    match s.regions with
    | some regions =>
      match regions.find? fun r => r.contains addr with
      | some r => some r.nodeId
      | none => some s.config.localNodeId
    | none =>
      let offset := addr - s.config.base
      let regionSize := s.config.size / s.config.numNodes.toUInt64
      if regionSize = 0 then none
      else some ((offset / regionSize).toUInt16 % s.config.numNodes)
  else
    some s.config.localNodeId

end Preload

end Bpftime.Pgas
