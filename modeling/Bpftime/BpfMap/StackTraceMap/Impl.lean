import Bpftime.Basic
import Bpftime.Data.Bytes
import Mathlib.Data.List.AList

namespace Bpftime.StackTraceMap

structure StackTraceMapImpl where
  maxStackEntries : UInt64
  maxEntries : UInt64
  data : AList (fun _ : UInt32 => List UInt64)
  keyBuf : List UInt64

def construct (keySize valueSize maxEntries : UInt32) : Except String StackTraceMapImpl :=
  if keySize ≠ 4 then
    .error "Key size of stack trace map must be 4"
  else if valueSize % 8 ≠ 0 then
    .error "Invalid value_size"
  else
    .ok
      { maxStackEntries := (valueSize / 8).toUInt64
        maxEntries := maxEntries.toUInt64
        data := ∅
        keyBuf := List.replicate (valueSize / 8).toNat 0 }

section Hash

variable (hashCombine : UInt64 → UInt64 → UInt64)

def hashStackTrace (stk : List UInt64) : UInt64 :=
  stk.foldl hashCombine (hashCombine 0 (UInt64.ofNat stk.length))

namespace StackTraceMapImpl

/-- The elements behind the returned pointer. `data()` of an empty vector has none: it is NULL, or
what is left of the storage of a longer trace. -/
def elemLookup (m : StackTraceMapImpl) (key : Option Int32) : Except Errno (Option (List UInt64)) :=
  match key with
  | none => .error .EINVAL
  | some key =>
    let index := key.toUInt32
    match m.data.lookup index with
    | none => .error .ENOENT
    | some trace => .ok (if trace = [] then none else some trace)

def elemDelete (m : StackTraceMapImpl) (key : Option Int32) : Except Errno StackTraceMapImpl :=
  match key with
  | none => .error .EINVAL
  | some key =>
    let index := key.toUInt32
    match m.data.lookup index with
    | none => .error .ENOENT
    | some _ => .ok { m with data := m.data.erase index }

def fillStackTrace (m : StackTraceMapImpl) (stk : List UInt64)
    (discardOldOne compareOnlyByHash : Bool) : Option (Int32 × StackTraceMapImpl) :=
  if m.maxEntries = 0 then
    none
  else
    let toPutHash := hashStackTrace hashCombine stk % m.maxEntries
    let itr := m.data.lookup toPutHash.toUInt32
    let m := { m with keyBuf := Bytes.overwrite (Bytes.resize m.keyBuf stk.length) 0 stk }
    let replaced := { m with data := m.data.insert toPutHash.toUInt32 m.keyBuf }
    match itr with
    | none => some (toPutHash.toUInt32.toInt32, replaced)
    | some old =>
      let equals := true
      let equals :=
        if !compareOnlyByHash then
          let equals := equals && old.length == stk.length
          -- the contents are compared only if the lengths differ
          if !equals then equals && stk == old.take stk.length else equals
        else
          equals
      if equals then
        some (toPutHash.toUInt32.toInt32, m)
      else if discardOldOne then
        some (toPutHash.toUInt32.toInt32, replaced)
      else
        some (toPutHash.toUInt32.toInt32, m)

end StackTraceMapImpl

inductive Op where
  | lookup (key : Option Int32)
  -- an update is always refused
  | update (key : Option Int32) (value : List UInt64) (flags : UInt64)
  | delete (key : Option Int32)
  | fill (stk : List UInt64) (discardOldOne compareOnlyByHash : Bool)

namespace StackTraceMapImpl

def step (m : StackTraceMapImpl) : Op → Option StackTraceMapImpl
  | .lookup _ => some m
  | .update _ _ _ => some m
  | .delete key =>
    match m.elemDelete key with
    | .error _ => some m
    | .ok m => some m
  | .fill stk discardOldOne compareOnlyByHash =>
    (m.fillStackTrace hashCombine stk discardOldOne compareOnlyByHash).map Prod.snd

end StackTraceMapImpl

end Hash

end Bpftime.StackTraceMap
