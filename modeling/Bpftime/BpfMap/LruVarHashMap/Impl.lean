import Bpftime.Basic
import Mathlib.Data.List.AList

namespace Bpftime.LruVarHashMap

structure Params where
  keySize : Nat
  valueSize : Nat
  maxEntries : Nat
  maxEntries_pos : 0 < maxEntries

abbrev Key (p : Params) := Vector UInt8 p.keySize

abbrev Value (p : Params) := Vector UInt8 p.valueSize

abbrev EntryPtr := Nat

structure LruLinklistEntry (p : Params) where
  key : Key p
  nextEntry : Option EntryPtr
  previousEntry : Option EntryPtr

structure HashMapValue (p : Params) where
  value : Value p
  linkedListEntry : EntryPtr

-- Entries are told apart by the order of their construction; `constructed` is their number so far.
structure LruVarHashMapImpl (p : Params) where
  mapImpl : AList (fun _ : Key p => HashMapValue p)
  entries : EntryPtr → LruLinklistEntry p
  constructed : Nat
  lruLinkListHead : Option EntryPtr
  lruLinkListTail : Option EntryPtr

variable {p : Params}

def construct (p : Params) : LruVarHashMapImpl p where
  mapImpl := ∅
  entries := fun _ => ⟨.replicate p.keySize 0, none, none⟩
  constructed := 0
  lruLinkListHead := none
  lruLinkListTail := none

def isGoodUpdateFlag (flags : UInt64) : Bool :=
  flags = BPF_ANY || flags = BPF_EXIST || flags = BPF_NOEXIST

namespace LruVarHashMapImpl

def setNext (m : LruVarHashMapImpl p) (entry : EntryPtr) (next : Option EntryPtr) : LruVarHashMapImpl p :=
  { m with entries := Function.update m.entries entry { m.entries entry with nextEntry := next } }

def setPrevious (m : LruVarHashMapImpl p) (entry : EntryPtr) (previous : Option EntryPtr)
    : LruVarHashMapImpl p :=
  { m with entries := Function.update m.entries entry { m.entries entry with previousEntry := previous } }

def moveToHead (m : LruVarHashMapImpl p) (entry : EntryPtr) : Option (LruVarHashMapImpl p) :=
  if some entry = m.lruLinkListHead then
    some m
  else do
    let prev ← (m.entries entry).previousEntry
    let next := (m.entries entry).nextEntry
    let m := m.setNext prev next
    let m :=
      match next with
      | some next => m.setPrevious next (some prev)
      | none => { m with lruLinkListTail := some prev }
    let m := m.setNext entry m.lruLinkListHead
    let m := m.setPrevious entry none
    let head ← m.lruLinkListHead
    let m := m.setPrevious head (some entry)
    return { m with lruLinkListHead := some entry }

def insertNewEntry (m : LruVarHashMapImpl p) (key : Key p) : LruVarHashMapImpl p × EntryPtr :=
  let entry := m.constructed
  let m := { m with
    entries := Function.update m.entries entry ⟨key, none, none⟩
    constructed := m.constructed + 1 }
  match m.lruLinkListHead with
  | none => ({ m with lruLinkListHead := some entry, lruLinkListTail := some entry }, entry)
  | some head =>
    let m := m.setNext entry (some head)
    let m := m.setPrevious head (some entry)
    ({ m with lruLinkListHead := some entry }, entry)

def evictEntry (m : LruVarHashMapImpl p) (entry : EntryPtr) : Option (LruVarHashMapImpl p) :=
  if some entry = m.lruLinkListTail then
    if some entry = m.lruLinkListHead then
      some { m with lruLinkListHead := none, lruLinkListTail := none }
    else do
      let prev ← (m.entries entry).previousEntry
      let m := m.setNext prev none
      return { m with lruLinkListTail := some prev }
  else if some entry = m.lruLinkListHead then do
    let next ← (m.entries entry).nextEntry
    let m := m.setPrevious next none
    return { m with lruLinkListHead := (m.entries entry).nextEntry }
  else do
    let prev ← (m.entries entry).previousEntry
    let next ← (m.entries entry).nextEntry
    return (m.setNext prev (some next)).setPrevious next (some prev)

def elemLookup (m : LruVarHashMapImpl p) (key : Key p)
    : Option (Except Errno (Value p) × LruVarHashMapImpl p) :=
  match m.mapImpl.lookup key with
  | some v => do
    let m ← m.moveToHead v.linkedListEntry
    -- the address of `value[0]`, which an empty vector does not have
    if p.valueSize = 0 then none else return (.ok v.value, m)
  | none => some (.error .ENOENT, m)

def evictLeastRecentlyUsed (m : LruVarHashMapImpl p) : Option (LruVarHashMapImpl p) := do
  let tail ← m.lruLinkListTail
  let m := { m with mapImpl := m.mapImpl.erase (m.entries tail).key }
  m.evictEntry tail

def makeRoom (m : LruVarHashMapImpl p) : Option (LruVarHashMapImpl p) :=
  if m.mapImpl.keys.length = p.maxEntries then m.evictLeastRecentlyUsed else some m

def elemUpdate (m : LruVarHashMapImpl p) (key : Key p) (value : Value p) (flags : UInt64)
    : Option (Except Errno Unit × LruVarHashMapImpl p) :=
  if !isGoodUpdateFlag flags then
    some (.error .EINVAL, m)
  else
    match m.mapImpl.lookup key with
    | some v =>
      if flags = BPF_NOEXIST then
        some (.error .EEXIST, m)
      else do
        let m := { m with mapImpl := m.mapImpl.insert key { v with value := value } }
        let m ← m.moveToHead v.linkedListEntry
        return (.ok (), m)
    | none =>
      if flags = BPF_EXIST then
        some (.error .ENOENT, m)
      else do
        let m ← m.makeRoom
        let (m, entry) := m.insertNewEntry key
        return (.ok (), { m with mapImpl := m.mapImpl.insert key ⟨value, entry⟩ })

def elemDelete (m : LruVarHashMapImpl p) (key : Key p)
    : Option (Except Errno Unit × LruVarHashMapImpl p) :=
  match m.mapImpl.lookup key with
  | none => some (.error .ENOENT, m)
  | some v => do
    let m ← m.evictEntry v.linkedListEntry
    return (.ok (), { m with mapImpl := m.mapImpl.erase key })

end LruVarHashMapImpl

end Bpftime.LruVarHashMap
