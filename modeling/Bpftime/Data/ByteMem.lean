import Mathlib.Algebra.Group.Nat.Defs
import Mathlib.Data.List.Basic
import Mathlib.Data.List.GetD

structure ByteMem where
  len : Nat
  byte : Nat → UInt8

namespace ByteMem

def bytes (m : ByteMem) (addr n : Nat) : List UInt8 :=
  (List.range n).map fun i => m.byte (addr + i)

def write (m : ByteMem) (addr : Nat) (bs : List UInt8) : ByteMem :=
  { m with byte := fun x => if addr ≤ x then bs.getD (x - addr) (m.byte x) else m.byte x }

def load (m : ByteMem) (addr n : Nat) : Option (List UInt8) :=
  if addr + n ≤ m.len then some (m.bytes addr n) else none

def store (m : ByteMem) (addr : Nat) (bs : List UInt8) : Option ByteMem :=
  if addr + bs.length ≤ m.len then some (m.write addr bs) else none

def resize (m : ByteMem) (n : Nat) : ByteMem :=
  { len := n, byte := fun x => if x < m.len then m.byte x else 0 }

def zeroed (n : Nat) : ByteMem := { len := n, byte := fun _ => 0 }

def encode16 (x : UInt16) : List UInt8 :=
  [.ofNat x.toNat, .ofNat (x.toNat / 2 ^ 8)]

def encode32 (x : UInt32) : List UInt8 :=
  [.ofNat x.toNat, .ofNat (x.toNat / 2 ^ 8), .ofNat (x.toNat / 2 ^ 16), .ofNat (x.toNat / 2 ^ 24)]

def decode32 (bs : List UInt8) : UInt32 :=
  .ofNat (bs.foldr (fun b acc => b.toNat + 2 ^ 8 * acc) 0)

def load32 (m : ByteMem) (addr : Nat) : Option UInt32 :=
  (m.load addr 4).map decode32

def store32 (m : ByteMem) (addr : Nat) (x : UInt32) : Option ByteMem :=
  m.store addr (encode32 x)

@[simp]
theorem length_bytes (m : ByteMem) (addr n : Nat) : (m.bytes addr n).length = n := by
  simp [bytes]

@[simp]
theorem length_encode32 (x : UInt32) : (encode32 x).length = 4 := rfl

@[simp]
theorem write_len (m : ByteMem) (addr : Nat) (bs : List UInt8) : (m.write addr bs).len = m.len := rfl

variable {m : ByteMem} {addr : Nat} {bs : List UInt8}

theorem load_eq_some {n : Nat} (h : addr + n ≤ m.len) : m.load addr n = some (m.bytes addr n) := by
  unfold load
  rw [if_pos h]

theorem store_eq_some (h : addr + bs.length ≤ m.len)
    : m.store addr bs = some (m.write addr bs) := by
  unfold store
  rw [if_pos h]

theorem len_of_store {m' : ByteMem} (h : m.store addr bs = some m') : m'.len = m.len := by
  unfold store at h
  split at h
  next =>
    cases h
    rfl
  next => cases h

theorem store_eq_none (h : m.len < addr + bs.length) : m.store addr bs = none := by
  unfold store
  rw [if_neg]
  omega

theorem byte_write_of_outside (m : ByteMem) {x : Nat} (h : x < addr ∨ addr + bs.length ≤ x)
    : (m.write addr bs).byte x = m.byte x := by
  unfold write
  dsimp only
  split
  . rw [List.getD_eq_default]
    omega
  . rfl

theorem byte_write_of_inside (m : ByteMem) (addr : Nat) {i : Nat} (h : i < bs.length)
    : (m.write addr bs).byte (addr + i) = bs[i] := by
  unfold write
  dsimp only
  rw [if_pos (by omega), Nat.add_sub_cancel_left]
  simp [h]

theorem bytes_congr {m' : ByteMem} {n : Nat} (h : ∀ i < n, m'.byte (addr + i) = m.byte (addr + i))
    : m'.bytes addr n = m.bytes addr n := by
  apply List.map_congr_left
  intro i hi
  apply h
  rw [List.mem_range] at hi
  exact hi

theorem bytes_write_self (m : ByteMem) (addr : Nat) (bs : List UInt8)
    : (m.write addr bs).bytes addr bs.length = bs := by
  apply List.ext_getElem
  . simp
  . intro i hi hi'
    simp [bytes, write, hi']

theorem bytes_add (m : ByteMem) (addr a b : Nat)
    : m.bytes addr (a + b) = m.bytes addr a ++ m.bytes (addr + a) b := by
  unfold bytes
  rw [List.range_add, List.map_append, List.map_map]
  congr 1
  apply List.map_congr_left
  intro i _
  rw [Function.comp_apply, Nat.add_assoc]

theorem bytes_write_write (m : ByteMem) (addr : Nat) (as bs : List UInt8)
    : ((m.write addr as).write (addr + as.length) bs).bytes addr (as.length + bs.length) = as ++ bs := by
  rw [bytes_add, bytes_write_self]
  congr 1
  rw [@bytes_congr (m.write addr as), bytes_write_self]
  intro i hi
  apply byte_write_of_outside
  omega

theorem decode32_encode32 (x : UInt32) : decode32 (encode32 x) = x := by
  apply UInt32.toNat.inj
  have := x.toNat_lt
  simp only [decode32, encode32, List.foldr_cons, List.foldr_nil, UInt32.toNat_ofNat',
    UInt8.toNat_ofNat']
  omega

theorem decode32_replicate_zero : decode32 (List.replicate 4 0) = 0 := by
  decide

theorem load32_eq_some (h : addr + 4 ≤ m.len)
    : m.load32 addr = some (decode32 (m.bytes addr 4)) := by
  unfold load32
  rw [load_eq_some h]
  rfl

theorem bytes_write32_self (m : ByteMem) (addr : Nat) (x : UInt32)
    : decode32 ((m.write addr (encode32 x)).bytes addr 4) = x := by
  have := bytes_write_self m addr (encode32 x)
  rw [length_encode32] at this
  rw [this]
  exact decode32_encode32 x

end ByteMem
