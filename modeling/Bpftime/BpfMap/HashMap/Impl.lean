import Bpftime.Data.LinearProbe

/-!
This module contains the hash table with open addressing and linear probing, over sizes for which
its slots are where the code computes them to be.
-/

namespace Bpftime.HashMap

def isPrime (n : Nat) : Bool :=
  if n ≤ 1 then
    false
  else if n ≤ 3 then
    true
  else if n % 2 = 0 ∨ n % 3 = 0 then
    false
  else
    go n 5
where
  go : Nat → Nat → Bool
    | 0, _ => true
    | fuel + 1, i =>
      if i * i ≤ n then
        if n % i = 0 ∨ n % (i + 2) = 0 then
          false
        else
          go fuel (i + 6)
      else
        true

def nextPrime (n : Nat) : Nat :=
  go (n + 2) n
where
  go : Nat → Nat → Nat
    | 0, n => n
    | fuel + 1, n => if isPrime n then n else go fuel (n + 1)

/-- The arguments of the constructor. -/
structure Sizes where
  numBuckets : Nat
  keySize : Nat
  valueSize : Nat

namespace Sizes

def elemSize (s : Sizes) : Nat := 4 + s.keySize + s.valueSize

-- both products are of `size_t`
def bufferSize (s : Sizes) : Nat := nextPrime s.numBuckets * s.elemSize % 2 ^ 64

def getElemOffset (s : Sizes) (index : Nat) : Nat := index * s.elemSize % 2 ^ 64

/-- The slot lies inside the buffer. -/
def Inside (s : Sizes) (index : Nat) : Prop :=
  s.getElemOffset index + s.elemSize ≤ s.bufferSize

end Sizes

/-- Sizes for which the length of the buffer does not wrap. -/
structure Params extends Sizes where
  fits : nextPrime numBuckets * toSizes.elemSize < 2 ^ 64

abbrev Key (p : Params) := Vector UInt8 p.keySize

abbrev Value (p : Params) := Vector UInt8 p.valueSize

structure Elem (p : Params) where
  filled : Bool
  key : Key p
  value : Value p

structure BpftimeHashMap (p : Params) where
  numBuckets : Nat
  maxElementCount : Nat
  count : Nat
  dataBuffer : Nat → Elem p

def construct (p : Params) : BpftimeHashMap p where
  numBuckets := nextPrime p.numBuckets
  maxElementCount := p.numBuckets
  count := 0
  dataBuffer := fun _ => ⟨false, .replicate p.keySize 0, .replicate p.valueSize 0⟩

variable {p : Params}

def hashFunc (key : Key p) : UInt64 :=
  key.foldl (fun hash byte => hash * 31 + byte.toUInt64) 0

namespace BpftimeHashMap

def isEmpty (m : BpftimeHashMap p) (index : Nat) : Bool := !(m.dataBuffer index).filled

def getKey (m : BpftimeHashMap p) (index : Nat) : Key p := (m.dataBuffer index).key

def getValue (m : BpftimeHashMap p) (index : Nat) : Value p := (m.dataBuffer index).value

def modifyElem (m : BpftimeHashMap p) (index : Nat) (f : Elem p → Elem p) : BpftimeHashMap p :=
  { m with dataBuffer := Function.update m.dataBuffer index (f (m.dataBuffer index)) }

def setEmpty (m : BpftimeHashMap p) (index : Nat) : BpftimeHashMap p :=
  m.modifyElem index fun e => { e with filled := false }

def setFilled (m : BpftimeHashMap p) (index : Nat) : BpftimeHashMap p :=
  m.modifyElem index fun e => { e with filled := true }

def copyKey (m : BpftimeHashMap p) (index : Nat) (key : Key p) : BpftimeHashMap p :=
  m.modifyElem index fun e => { e with key }

def copyValue (m : BpftimeHashMap p) (index : Nat) (value : Value p) : BpftimeHashMap p :=
  m.modifyElem index fun e => { e with value }

def startIndex (m : BpftimeHashMap p) (key : Key p) : Nat := (hashFunc key).toNat % m.numBuckets

def probe (m : BpftimeHashMap p) (key : Key p) : Option LinearProbe.Probe :=
  LinearProbe.scan m.numBuckets body (m.startIndex key)
where
  body (index : Nat) : Option LinearProbe.Probe :=
    if m.isEmpty index then
      some (.empty index)
    else if m.getKey index = key then
      some (.found index)
    else
      none

-- The returned pointer is `get_value` of the index returned here.
def elemLookup (m : BpftimeHashMap p) (key : Key p) : Option Nat :=
  match m.probe key with
  | some (.found index) => some index
  | some (.empty _) => none
  | none => none

def elemUpdate (m : BpftimeHashMap p) (key : Key p) (value : Value p) : Bool × BpftimeHashMap p :=
  match m.probe key with
  | some (.empty index) =>
    if m.count ≥ m.maxElementCount then
      (false, m)
    else
      let m := ((m.copyKey index key).copyValue index value).setFilled index
      (true, { m with count := m.count + 1 })
  | some (.found index) => (true, m.copyValue index value)
  | none => (false, m)

def elemDelete (m : BpftimeHashMap p) (key : Key p) : Bool × BpftimeHashMap p :=
  match m.probe key with
  | some (.empty _) => (false, m)
  | some (.found index) =>
    let m := m.setEmpty index
    (true, { m with count := m.count - 1 })
  | none => (false, m)

def getElemCount (m : BpftimeHashMap p) : Nat := m.count

end BpftimeHashMap

end Bpftime.HashMap
