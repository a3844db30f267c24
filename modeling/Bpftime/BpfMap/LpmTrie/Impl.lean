import Bpftime.Basic
import Bpftime.Data.Bytes

/-!
This module contains the LPM trie map: the trie of nodes with their prefixes, and the walks of
lookup, update, delete and iteration over it.
-/

namespace Bpftime.LpmTrie

structure Params where
  dataSize : Nat
  valueSize : Nat
  maxEntries : Nat
  deriving DecidableEq, Repr

def Params.maxPrefixlen (p : Params) : Nat := p.dataSize * 8

structure BpfLpmTrieKey (p : Params) where
  prefixlen : Nat
  data : Vector UInt8 p.dataSize
  deriving DecidableEq, Repr

abbrev Value (p : Params) := Vector UInt8 p.valueSize

structure LpmTrieNode where
  prefixlen : Nat
  isIntermediate : Bool
  data : List UInt8
  deriving DecidableEq, Repr

inductive NodePtr where
  | null
  | node (n : LpmTrieNode) (child0 child1 : NodePtr)
  deriving DecidableEq, Repr

structure LpmTrieMapImpl where
  root : NodePtr
  nEntries : Nat
  deriving DecidableEq, Repr

structure Alloc where
  newNode : Bool
  imNode : Bool
  deriving DecidableEq, Repr

def LPM_DATA_SIZE_MAX : Nat := 256
def LPM_DATA_SIZE_MIN : Nat := 1
def LPM_KEY_SIZE_MIN : Nat := 4 + LPM_DATA_SIZE_MIN
def LPM_KEY_SIZE_MAX : Nat := 4 + LPM_DATA_SIZE_MAX

def LpmTrieMapImpl.empty : LpmTrieMapImpl := ⟨.null, 0⟩

def construct (keySize valueSize maxEntries : Nat) : Except String (Params × LpmTrieMapImpl) :=
  if keySize < LPM_KEY_SIZE_MIN ∨ keySize > LPM_KEY_SIZE_MAX then
    .error "Invalid key_size for LPM Trie"
  else if valueSize = 0 ∨ maxEntries = 0 then
    .error "Invalid value_size or max_entries for LPM Trie"
  else
    .ok (⟨keySize - 4, valueSize, maxEntries⟩, .empty)

variable (p : Params)

def extractBit (data : List UInt8) (index : Nat) : Bool :=
  let maxBits := p.dataSize * 8
  if index ≥ maxBits then
    false
  else
    let byte := data.getD (index / 8) 0
    let bitPos := 7 - index % 8
    (byte.toNat >>> bitPos) &&& 1 = 1

def longestPrefixMatch (n : LpmTrieNode) (key : BpfLpmTrieKey p) : Nat :=
  go (min n.prefixlen key.prefixlen) 0
where
  go : Nat → Nat → Nat
    | 0, matched => matched
    | left + 1, matched =>
      if extractBit p n.data matched ≠ extractBit p key.data.toList matched then
        matched
      else
        go left (matched + 1)

def copyKeyData (n : LpmTrieNode) (key : BpfLpmTrieKey p) : LpmTrieNode :=
  { n with data := Bytes.overwrite n.data 0 key.data.toList }

def copyValueData (n : LpmTrieNode) (value : Value p) : LpmTrieNode :=
  if n.isIntermediate then n else { n with data := Bytes.overwrite n.data p.dataSize value.toList }

def getNodeValueData (n : LpmTrieNode) : Option (List UInt8) :=
  if n.isIntermediate then none else some ((n.data.drop p.dataSize).take p.valueSize)

def createNode (ok : Bool) (value : Option (Value p)) (isIntermediate : Bool) : Option LpmTrieNode :=
  if !ok then
    none
  else
    match isIntermediate, value with
    | false, some value =>
      let n := ⟨0, isIntermediate, Bytes.resize [] (p.dataSize + p.valueSize)⟩
      some (copyValueData p n value)
    | _, _ => some ⟨0, isIntermediate, Bytes.resize [] p.dataSize⟩

def createNodeFor (ok : Bool) (value : Option (Value p)) (isIntermediate : Bool) (prefixlen : Nat)
    (key : BpfLpmTrieKey p) : Except Errno LpmTrieNode :=
  match createNode p ok value isIntermediate with
  | none => .error .ENOMEM
  | some n => .ok (copyKeyData p { n with prefixlen } key)

def lookupWalk (key : BpfLpmTrieKey p) : NodePtr → Option LpmTrieNode → Option LpmTrieNode
  | .null, found => found
  | .node n child0 child1, found =>
    let matchlen := longestPrefixMatch p n key
    -- an exact match for the maximum possible prefix
    if matchlen = p.maxPrefixlen then
      some n
    else if matchlen < n.prefixlen then
      found
    else
      let found := if !n.isIntermediate then some n else found
      if matchlen < key.prefixlen then
        match extractBit p key.data.toList n.prefixlen with
        | false => lookupWalk key child0 found
        | true => lookupWalk key child1 found
      else
        found

def elemLookup (m : LpmTrieMapImpl) (key : BpfLpmTrieKey p) : Except Errno (List UInt8) :=
  if key.prefixlen > p.maxPrefixlen then
    .error .EINVAL
  else
    match lookupWalk p key m.root none with
    | none => .error .ENOENT
    | some found =>
      match getNodeValueData p found with
      | none => .error .ENOENT
      | some src => .ok src

def checkInsert (flags : UInt64) (nEntries : Nat) : Except Errno Unit :=
  if flags = BPF_EXIST then
    .error .ENOENT
  else if nEntries ≥ p.maxEntries then
    .error .ENOSPC
  else
    .ok ()

def insertLeaf (key : BpfLpmTrieKey p) (value : Value p) (flags : UInt64) (alloc : Alloc)
    (nEntries : Nat) : Except Errno (NodePtr × Nat) := do
  checkInsert p flags nEntries
  let newNode ← createNodeFor p alloc.newNode (some value) false key.prefixlen key
  return (.node newNode .null .null, nEntries + 1)

def insertSplit (key : BpfLpmTrieKey p) (value : Value p) (flags : UInt64) (alloc : Alloc)
    (nEntries : Nat) (slot : NodePtr) (matchlen : Nat) : Except Errno (NodePtr × Nat) := do
  checkInsert p flags nEntries
  let newNode ← createNodeFor p alloc.newNode (some value) false key.prefixlen key
  let imNode ← createNodeFor p alloc.imNode none true matchlen key
  if extractBit p key.data.toList matchlen then
    return (.node imNode slot (.node newNode .null .null), nEntries + 1)
  else
    return (.node imNode (.node newNode .null .null) slot, nEntries + 1)

def insertAncestor (key : BpfLpmTrieKey p) (value : Value p) (flags : UInt64) (alloc : Alloc)
    (nEntries : Nat) (n : LpmTrieNode) (slot : NodePtr) (matchlen : Nat)
    : Except Errno (NodePtr × Nat) := do
  checkInsert p flags nEntries
  let newNode ← createNodeFor p alloc.newNode (some value) false key.prefixlen key
  if extractBit p n.data matchlen then
    return (.node newNode .null slot, nEntries + 1)
  else
    return (.node newNode slot .null, nEntries + 1)

def replaceNode (value : Value p) (flags : UInt64) (nEntries : Nat) (n : LpmTrieNode)
    (child0 child1 : NodePtr) : Except Errno (NodePtr × Nat) :=
  let existsReal := !n.isIntermediate
  if flags = BPF_NOEXIST then
    .error .EEXIST
  else if flags = BPF_EXIST ∧ !existsReal then
    .error .ENOENT
  else if !existsReal then
    if nEntries ≥ p.maxEntries then
      .error .ENOSPC
    else
      let n := { n with
        isIntermediate := false
        data := Bytes.resize n.data (p.dataSize + p.valueSize) }
      .ok (.node (copyValueData p n value) child0 child1, nEntries + 1)
  else
    .ok (.node (copyValueData p n value) child0 child1, nEntries)

def updateSlot (key : BpfLpmTrieKey p) (value : Value p) (flags : UInt64) (alloc : Alloc)
    (nEntries : Nat) : NodePtr → Except Errno (NodePtr × Nat)
  | .null => insertLeaf p key value flags alloc nEntries
  | .node n child0 child1 =>
    let matchlen := longestPrefixMatch p n key
    if n.prefixlen = key.prefixlen then
      if matchlen = key.prefixlen then
        replaceNode p value flags nEntries n child0 child1
      else
        insertSplit p key value flags alloc nEntries (.node n child0 child1) matchlen
    else if matchlen = key.prefixlen then
      insertAncestor p key value flags alloc nEntries n (.node n child0 child1) matchlen
    else
      insertSplit p key value flags alloc nEntries (.node n child0 child1) matchlen

def updateWalk (key : BpfLpmTrieKey p) (value : Value p) (flags : UInt64) (alloc : Alloc)
    (nEntries : Nat) : NodePtr → Except Errno (NodePtr × Nat)
  | .null => updateSlot p key value flags alloc nEntries .null
  | .node n child0 child1 =>
    let matchlen := longestPrefixMatch p n key
    if n.prefixlen ≠ matchlen ∨ n.prefixlen = key.prefixlen ∨ n.prefixlen = p.maxPrefixlen then
      updateSlot p key value flags alloc nEntries (.node n child0 child1)
    else
      match extractBit p key.data.toList n.prefixlen with
      | false => do
        let (child0, nEntries) ← updateWalk key value flags alloc nEntries child0
        return (.node n child0 child1, nEntries)
      | true => do
        let (child1, nEntries) ← updateWalk key value flags alloc nEntries child1
        return (.node n child0 child1, nEntries)

def elemUpdate (m : LpmTrieMapImpl) (key : BpfLpmTrieKey p) (value : Value p) (flags : UInt64)
    (alloc : Alloc) : Except Errno LpmTrieMapImpl :=
  if flags ≠ BPF_ANY ∧ flags ≠ BPF_NOEXIST ∧ flags ≠ BPF_EXIST then
    .error .EINVAL
  else if key.prefixlen > p.maxPrefixlen then
    .error .EINVAL
  else
    match m.root with
    | .null => do
      let (root, nEntries) ← insertLeaf p key value flags alloc m.nEntries
      return ⟨root, nEntries⟩
    | root => do
      let (root, nEntries) ← updateWalk p key value flags alloc m.nEntries root
      return ⟨root, nEntries⟩

/-- What an update has changed when the node is intermediate and there is no memory for its value:
the flag is cleared before the vector is resized. -/
def markWalk (key : BpfLpmTrieKey p) : NodePtr → Option NodePtr
  | .null => none
  | .node n child0 child1 =>
    let matchlen := longestPrefixMatch p n key
    if n.prefixlen ≠ matchlen ∨ n.prefixlen = key.prefixlen ∨ n.prefixlen = p.maxPrefixlen then
      if n.prefixlen = key.prefixlen ∧ matchlen = key.prefixlen ∧ n.isIntermediate then
        some (.node { n with isIntermediate := false } child0 child1)
      else
        none
    else
      match extractBit p key.data.toList n.prefixlen with
      | false => (markWalk key child0).map fun child0 => .node n child0 child1
      | true => (markWalk key child1).map fun child1 => .node n child0 child1

def interruptedUpdate (m : LpmTrieMapImpl) (key : BpfLpmTrieKey p) (flags : UInt64)
    : Option LpmTrieMapImpl :=
  if flags ≠ BPF_ANY ∨ key.prefixlen > p.maxPrefixlen ∨ m.nEntries ≥ p.maxEntries then
    none
  else
    (markWalk p key m.root).map fun root => ⟨root, m.nEntries⟩

def deleteSlot (key : BpfLpmTrieKey p) (nEntries : Nat) : NodePtr → Except Errno (NodePtr × Nat)
  | .null => .error .ENOENT
  | .node n child0 child1 =>
    if n.prefixlen ≠ key.prefixlen ∨ longestPrefixMatch p n key ≠ n.prefixlen ∨ n.isIntermediate then
      .error .ENOENT
    else
      let n := { n with
        isIntermediate := true
        data := Bytes.resize n.data p.dataSize }
      .ok (.node n child0 child1, if nEntries > 0 then nEntries - 1 else nEntries)

def deleteWalk (key : BpfLpmTrieKey p) (nEntries : Nat) : NodePtr → Except Errno (NodePtr × Nat)
  | .null => deleteSlot p key nEntries .null
  | .node n child0 child1 =>
    let matchlen := longestPrefixMatch p n key
    if n.prefixlen ≠ matchlen ∨ n.prefixlen = key.prefixlen then
      deleteSlot p key nEntries (.node n child0 child1)
    else
      match extractBit p key.data.toList n.prefixlen with
      | false => do
        let (child0, nEntries) ← deleteWalk key nEntries child0
        return (.node n child0 child1, nEntries)
      | true => do
        let (child1, nEntries) ← deleteWalk key nEntries child1
        return (.node n child0 child1, nEntries)

def elemDelete (m : LpmTrieMapImpl) (key : BpfLpmTrieKey p) : Except Errno LpmTrieMapImpl :=
  if key.prefixlen > p.maxPrefixlen then
    .error .EINVAL
  else do
    let (root, nEntries) ← deleteWalk p key m.nEntries m.root
    return ⟨root, nEntries⟩

def nextKeyWalk : NodePtr → Option LpmTrieNode
  | .null => none
  | .node n child0 child1 =>
    if !n.isIntermediate then
      some n
    else
      match child0 with
      | .null => nextKeyWalk child1
      | .node n child00 child01 => nextKeyWalk (.node n child00 child01)

def mapGetNextKey (m : LpmTrieMapImpl) (hasKey hasNextKey : Bool)
    : Except Errno (BpfLpmTrieKey p) :=
  if !hasNextKey then
    .error .EINVAL
  else
    match m.root with
    | .null => .error .ENOENT
    | root =>
      if !hasKey then
        match nextKeyWalk root with
        | none => .error .ENOENT
        | some n => .ok ⟨n.prefixlen, .ofFn fun i => n.data.getD i 0⟩
      else
        .error .ENOENT

end Bpftime.LpmTrie
