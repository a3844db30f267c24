import Bpftime.Basic
import Bpftime.Data.BitArray

namespace Bpftime.BloomFilter

inductive BloomHashAlgorithm where
  | djb2
  | jhash
  deriving DecidableEq

structure Params where
  valueSize : UInt32
  maxEntries : UInt32
  nrHashes : UInt32
  hashAlgorithm : BloomHashAlgorithm

abbrev Value (p : Params) := Vector UInt8 p.valueSize.toNat

structure BloomFilterMapImpl (p : Params) where
  hashSeed : UInt32
  bitArraySizeBits : UInt64
  bitArraySizeBytes : UInt64
  bitArrayMask : UInt32
  bitArray : List UInt8

def calculateOptimalBitArraySize (maxEntries nrHashes : UInt32) : UInt64 :=
  let optimalSize := (maxEntries.toUInt64 * nrHashes.toUInt64 * 7) / 5
  let optimalSize := if optimalSize < 64 then 64 else optimalSize
  let limit := (1 : UInt64) <<< (31 : UInt64)
  if optimalSize > limit then limit else optimalSize

def powerOf2Bits (bits : UInt64) : UInt64 := go 64 1
where
  go : ℕ → UInt64 → UInt64
    | 0, power => power
    | fuel + 1, power => if power < bits then go fuel (power <<< 1) else power

def construct (p : Params) (seed : UInt32) : Option (BloomFilterMapImpl p) :=
  if p.valueSize = 0 ∨ p.maxEntries = 0 then
    none
  else if p.nrHashes = 0 ∨ p.nrHashes > 15 then
    none
  else
    let bits := powerOf2Bits (calculateOptimalBitArraySize p.maxEntries p.nrHashes)
    let bytes := (bits + 7) / 8
    some
      { hashSeed := seed
        bitArraySizeBits := bits
        bitArraySizeBytes := bytes
        bitArrayMask := (bits - 1).toUInt32
        bitArray := List.replicate bytes.toNat 0 }

namespace Jhash

def rol (x : UInt32) (n : UInt32) : UInt32 := (x <<< n) ||| (x >>> (32 - n))

def word (k : List UInt8) (i : ℕ) : UInt32 :=
  let byte (j : ℕ) : UInt32 := (k.getD j 0).toUInt32
  byte i + (byte (i + 1) <<< 8) + (byte (i + 2) <<< 16) + (byte (i + 3) <<< 24)

structure Regs where
  a : UInt32
  b : UInt32
  c : UInt32

def add (r : Regs) (k : List UInt8) : Regs :=
  { a := r.a + word k 0, b := r.b + word k 4, c := r.c + word k 8 }

def mix (r : Regs) : Regs :=
  let ⟨a, b, c⟩ := r
  let a := a - c
  let a := a ^^^ rol c 4
  let c := c + b
  let b := b - a
  let b := b ^^^ rol a 6
  let a := a + c
  let c := c - b
  let c := c ^^^ rol b 8
  let b := b + a
  let a := a - c
  let a := a ^^^ rol c 16
  let c := c + b
  let b := b - a
  let b := b ^^^ rol a 19
  let a := a + c
  let c := c - b
  let c := c ^^^ rol b 4
  let b := b + a
  ⟨a, b, c⟩

def finalMix (r : Regs) : UInt32 :=
  let ⟨a, b, c⟩ := r
  let c := c ^^^ b
  let c := c - rol b 14
  let a := a ^^^ c
  let a := a - rol c 11
  let b := b ^^^ a
  let b := b - rol a 25
  let c := c ^^^ b
  let c := c - rol b 16
  let a := a ^^^ c
  let a := a - rol c 4
  let b := b ^^^ a
  let b := b - rol a 14
  let c := c ^^^ b
  c - rol b 24

def blocks : ℕ → List UInt8 → Regs → UInt32
  | 0, _, r => r.c
  | fuel + 1, k, r =>
    if k.length > 12 then
      blocks fuel (k.drop 12) (mix (add r (k.take 12)))
    else if k.length = 0 then
      r.c
    else
      finalMix (add r k)

end Jhash

def jhash (key : List UInt8) (length : UInt32) (initval : UInt32) : UInt32 :=
  let init := 0xdeadbeef + length + initval
  Jhash.blocks (key.length + 1) key ⟨init, init, init⟩

def djb2 (key : List UInt8) (init : UInt32) : UInt32 :=
  let hash : UInt32 :=
    key.foldl (fun (hash : UInt32) byte => ((hash <<< 5) + hash) + byte.toUInt32) init
  let hash := hash ^^^ (hash >>> 16)
  let hash := hash * 0x85ebca6b
  let hash := hash ^^^ (hash >>> 13)
  let hash := hash * 0xc2b2ae35
  hash ^^^ (hash >>> 16)

variable {p : Params}

namespace BloomFilterMapImpl

def hashValue (f : BloomFilterMapImpl p) (value : Value p) (hashIndex : UInt32) : UInt32 :=
  let hash :=
    match p.hashAlgorithm with
    | .jhash => jhash value.toList p.valueSize (f.hashSeed + hashIndex)
    | .djb2 => djb2 value.toList (f.hashSeed + hashIndex * 0x9e3779b9)
  hash &&& f.bitArrayMask

def setBit (f : BloomFilterMapImpl p) (bitIndex : UInt32) : BloomFilterMapImpl p :=
  { f with bitArray := BitArray.setBit f.bitArray bitIndex.toNat }

def testBit (f : BloomFilterMapImpl p) (bitIndex : UInt32) : Bool :=
  BitArray.testBit f.bitArray bitIndex.toNat

def hashIndices (p : Params) : List UInt32 := (List.range p.nrHashes.toNat).map UInt32.ofNat

def elemLookup (_f : BloomFilterMapImpl p) : Errno := .EOPNOTSUPP

def mapPushElem (f : BloomFilterMapImpl p) (value : Option (Value p)) (flags : UInt64)
    : Except Errno Unit × BloomFilterMapImpl p :=
  match value with
  | none => (.error .EINVAL, f)
  | some value =>
    if flags ≠ BPF_ANY then
      (.error .EINVAL, f)
    else
      (.ok (), (hashIndices p).foldl (fun f i => f.setBit (f.hashValue value i)) f)

def elemUpdate (f : BloomFilterMapImpl p) (value : Option (Value p)) (flags : UInt64)
    : Except Errno Unit × BloomFilterMapImpl p :=
  f.mapPushElem value flags

def elemDelete (_f : BloomFilterMapImpl p) : Errno := .EOPNOTSUPP

def mapGetNextKey (_f : BloomFilterMapImpl p) : Errno := .EOPNOTSUPP

def mapPopElem (_f : BloomFilterMapImpl p) : Errno := .EOPNOTSUPP

def mapPeekElem (f : BloomFilterMapImpl p) (value : Option (Value p)) : Except Errno Unit :=
  match value with
  | none => .error .EINVAL
  | some value =>
    if (hashIndices p).all fun i => f.testBit (f.hashValue value i) then
      .ok ()
    else
      .error .ENOENT

end BloomFilterMapImpl

end Bpftime.BloomFilter
