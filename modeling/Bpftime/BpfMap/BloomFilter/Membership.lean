import Bpftime.BpfMap.BloomFilter.Impl

namespace Bpftime.BloomFilter

variable {p : Params}

theorem toNat_calculateOptimalBitArraySize_le (maxEntries nrHashes : UInt32)
    : (calculateOptimalBitArraySize maxEntries nrHashes).toNat ≤ 2 ^ 31 := by
  have hlimit : ((1 : UInt64) <<< (31 : UInt64)).toNat = 2 ^ 31 := by decide
  have hclamp (size : UInt64)
      : (if size > (1 : UInt64) <<< (31 : UInt64) then (1 : UInt64) <<< (31 : UInt64)
          else size).toNat ≤ 2 ^ 31 := by
    split
    next => exact Nat.le_of_eq hlimit
    next hle =>
      rw [gt_iff_lt, UInt64.lt_iff_toNat_lt, hlimit] at hle
      omega
  exact hclamp _

theorem powerOf2Bits.go_eq {bits : UInt64} (hbits : bits.toNat ≤ 2 ^ 31) (fuel : ℕ)
    : ∀ power k, power.toNat = 2 ^ k → k ≤ 31 → ∃ k' ≤ 31, (go bits fuel power).toNat = 2 ^ k' := by
  induction fuel with
  | zero =>
    intro power k hpower hk
    exact ⟨k, hk, hpower⟩
  | succ fuel ih =>
    intro power k hpower hk
    unfold go
    split
    next hlt =>
      rw [UInt64.lt_iff_toNat_lt, hpower] at hlt
      have hk' : k < 31 := by
        apply (Nat.pow_lt_pow_iff_right (by omega : 1 < 2)).mp
        omega
      apply ih _ (k + 1)
      . rw [UInt64.toNat_shiftLeft, hpower]
        have hle : 2 ^ (k + 1) ≤ 2 ^ 31 := Nat.pow_le_pow_right (by omega) hk'
        have hone : (1 : UInt64).toNat % 64 = 1 := by decide
        rw [hone, Nat.shiftLeft_eq, ← Nat.pow_succ, Nat.mod_eq_of_lt]
        omega
      . omega
    next => exact ⟨k, hk, hpower⟩

theorem toNat_powerOf2Bits {bits : UInt64} (hbits : bits.toNat ≤ 2 ^ 31)
    : ∃ k ≤ 31, (powerOf2Bits bits).toNat = 2 ^ k := by
  apply powerOf2Bits.go_eq hbits 64 1 0
  . rfl
  . omega

namespace BloomFilterMapImpl

def Masked (f : BloomFilterMapImpl p) : Prop := f.bitArrayMask.toNat < 8 * f.bitArray.length

theorem masked_construct {seed : UInt32} {f : BloomFilterMapImpl p} (h : construct p seed = some f)
    : f.Masked := by
  have hsize := toNat_calculateOptimalBitArraySize_le p.maxEntries p.nrHashes
  rcases toNat_powerOf2Bits hsize with ⟨k, hk, hbits⟩
  unfold construct at h
  split at h
  next => contradiction
  next =>
    split at h
    next => contradiction
    next =>
      cases h
      have hpos := Nat.two_pow_pos k
      have hle : 2 ^ k ≤ 2 ^ 31 := Nat.pow_le_pow_right (by omega) hk
      have hone : (1 : UInt64) ≤ powerOf2Bits (calculateOptimalBitArraySize p.maxEntries p.nrHashes) := by
        rw [UInt64.le_iff_toNat_le, hbits]
        exact hpos
      unfold Masked
      dsimp only
      rw [List.length_replicate, UInt64.toNat_toUInt32, UInt64.toNat_sub_of_le _ _ hone]
      rw [UInt64.toNat_div, UInt64.toNat_add, hbits]
      simp only [UInt64.toNat_one, UInt64.reduceToNat]
      omega

theorem Masked.hashValue_lt {f : BloomFilterMapImpl p} (h : f.Masked) (value : Value p)
    (hashIndex : UInt32)
    : (f.hashValue value hashIndex).toNat < 8 * f.bitArray.length := by
  apply Nat.lt_of_le_of_lt _ h
  unfold hashValue
  dsimp only
  rw [UInt32.toNat_and]
  exact Nat.and_le_right

structure Extends (f f' : BloomFilterMapImpl p) : Prop where
  seed_eq : f'.hashSeed = f.hashSeed
  mask_eq : f'.bitArrayMask = f.bitArrayMask
  length_eq : f'.bitArray.length = f.bitArray.length
  testBit_of : ∀ i, f.testBit i = true → f'.testBit i = true

namespace Extends

variable {f f' f'' : BloomFilterMapImpl p}

theorem refl (f : BloomFilterMapImpl p) : f.Extends f := by
  constructor
  . rfl
  . rfl
  . rfl
  . intro i h
    exact h

theorem trans (h : f.Extends f') (h' : f'.Extends f'') : f.Extends f'' := by
  constructor
  . rw [h'.seed_eq, h.seed_eq]
  . rw [h'.mask_eq, h.mask_eq]
  . rw [h'.length_eq, h.length_eq]
  . intro i hi
    apply h'.testBit_of
    exact h.testBit_of i hi

theorem hashValue_eq (h : f.Extends f') (value : Value p) (hashIndex : UInt32)
    : f'.hashValue value hashIndex = f.hashValue value hashIndex := by
  unfold hashValue
  rw [h.seed_eq, h.mask_eq]

theorem masked (h : f.Extends f') (hmasked : f.Masked) : f'.Masked := by
  unfold Masked
  rw [h.mask_eq, h.length_eq]
  exact hmasked

theorem setBit (f : BloomFilterMapImpl p) (bitIndex : UInt32) : f.Extends (f.setBit bitIndex) := by
  constructor
  . rfl
  . rfl
  . exact BitArray.length_setBit f.bitArray bitIndex.toNat
  . intro i hi
    exact BitArray.testBit_setBit_of_testBit hi bitIndex.toNat

end Extends

theorem mapPeekElem_eq_ok_iff {f : BloomFilterMapImpl p} {value : Value p}
    : f.mapPeekElem (some value) = .ok ()
        ↔
      ∀ i ∈ hashIndices p, f.testBit (f.hashValue value i) = true := by
  unfold mapPeekElem
  dsimp only
  split
  next h => exact iff_of_true rfl (List.all_eq_true.mp h)
  next h =>
    apply iff_of_false
    . simp
    . intro hall
      exact h (List.all_eq_true.mpr hall)

theorem Extends.mapPeekElem {f f' : BloomFilterMapImpl p} (h : f.Extends f') {value : Value p}
    (hpeek : f.mapPeekElem (some value) = .ok ())
    : f'.mapPeekElem (some value) = .ok () := by
  rw [mapPeekElem_eq_ok_iff] at hpeek ⊢
  intro i hi
  rw [h.hashValue_eq]
  apply h.testBit_of
  exact hpeek i hi

theorem Masked.testBit_setBit {f : BloomFilterMapImpl p} (h : f.Masked) (value : Value p)
    (hashIndex : UInt32)
    : (f.setBit (f.hashValue value hashIndex)).testBit (f.hashValue value hashIndex) = true := by
  have hlt := h.hashValue_lt value hashIndex
  unfold BloomFilterMapImpl.testBit BloomFilterMapImpl.setBit
  dsimp only
  rw [BitArray.testBit_setBit (by omega)]
  simp

def addBits (f : BloomFilterMapImpl p) (value : Value p) (indices : List UInt32)
    : BloomFilterMapImpl p :=
  indices.foldl (fun f i => f.setBit (f.hashValue value i)) f

theorem Masked.addBits (value : Value p) (indices : List UInt32)
    : ∀ {f : BloomFilterMapImpl p}, f.Masked →
        f.Extends (f.addBits value indices)
          ∧ ∀ i ∈ indices, (f.addBits value indices).testBit (f.hashValue value i) = true := by
  induction indices with
  | nil =>
    intro f _
    exact ⟨Extends.refl f, by simp⟩
  | cons i indices ih =>
    intro f h
    have hset := Extends.setBit f (f.hashValue value i)
    rcases ih (hset.masked h) with ⟨hextends, hbits⟩
    refine ⟨hset.trans hextends, ?_⟩
    intro j hj
    rcases List.mem_cons.mp hj with heq | hmem
    . rw [heq]
      apply hextends.testBit_of
      exact h.testBit_setBit value i
    . rw [← hset.hashValue_eq]
      exact hbits j hmem

inductive Call (p : Params) where
  | update (value : Option (Value p)) (flags : UInt64)
  | push (value : Option (Value p)) (flags : UInt64)

def Call.value : Call p → Option (Value p)
  | .update value _ => value
  | .push value _ => value

def call (f : BloomFilterMapImpl p) : Call p → Except Errno Unit × BloomFilterMapImpl p
  | .update value flags => f.elemUpdate value flags
  | .push value flags => f.mapPushElem value flags

def run (f : BloomFilterMapImpl p) (calls : List (Call p)) : BloomFilterMapImpl p :=
  calls.foldl (fun f c => (f.call c).2) f

theorem call_eq (f : BloomFilterMapImpl p) (c : Call p)
    : ∃ flags, f.call c = f.mapPushElem c.value flags := by
  cases c with
  | update value flags | push value flags => exact ⟨flags, rfl⟩

theorem call_cases (f : BloomFilterMapImpl p) (c : Call p)
    : (∃ value, c.value = some value ∧ f.call c = (.ok (), f.addBits value (hashIndices p)))
        ∨
      f.call c = (.error .EINVAL, f) := by
  rcases f.call_eq c with ⟨flags, hcall⟩
  rw [hcall]
  unfold mapPushElem
  cases c.value with
  | none => exact Or.inr rfl
  | some value =>
    dsimp only
    split
    next => exact Or.inr rfl
    next => exact Or.inl ⟨value, rfl, rfl⟩

theorem Masked.extends_call {f : BloomFilterMapImpl p} (h : f.Masked) (c : Call p)
    : f.Extends (f.call c).2 := by
  rcases f.call_cases c with ⟨value, -, hcall⟩ | hcall
  . rw [hcall]
    exact (h.addBits value (hashIndices p)).1
  . rw [hcall]
    exact Extends.refl f

theorem Masked.extends_run (calls : List (Call p))
    : ∀ {f : BloomFilterMapImpl p}, f.Masked → f.Extends (f.run calls) := by
  induction calls with
  | nil =>
    intro f _
    exact Extends.refl f
  | cons c calls ih =>
    intro f h
    have hcall := h.extends_call c
    exact hcall.trans (ih (hcall.masked h))

theorem Masked.mapPeekElem_call {f : BloomFilterMapImpl p} (h : f.Masked) {c : Call p}
    {value : Value p} (hvalue : c.value = some value) (hok : (f.call c).1 = .ok ())
    : (f.call c).2.mapPeekElem (some value) = .ok () := by
  rcases f.call_cases c with ⟨added, hadded, hcall⟩ | hcall
  . rw [hvalue] at hadded
    cases hadded
    rcases h.addBits value (hashIndices p) with ⟨hextends, hbits⟩
    rw [hcall, mapPeekElem_eq_ok_iff]
    intro i hi
    dsimp only
    rw [hextends.hashValue_eq]
    exact hbits i hi
  . rw [hcall] at hok
    contradiction

theorem peek_of_added (p : Params) (seed : UInt32) (hvalue : 1 ≤ p.valueSize)
    (hentries : 1 ≤ p.maxEntries) (hnr : 1 ≤ p.nrHashes) (hnr' : p.nrHashes ≤ 15)
    : ∃ f, construct p seed = some f ∧ ∀ before,
        (∀ value hashIndex,
          ((run f before).hashValue value hashIndex).toNat < 8 * (run f before).bitArray.length)
        ∧ ∀ c value after, c.value = some value → ((run f before).call c).1 = .ok () →
            (run f (before ++ c :: after)).mapPeekElem (some value) = .ok () := by
  have hne {x : UInt32} (hx : 1 ≤ x) : x ≠ 0 := by
    intro heq
    rw [heq] at hx
    contradiction
  have hconstruct : ∃ f, construct p seed = some f := by
    unfold construct
    rw [if_neg (by simp [hne hvalue, hne hentries])]
    rw [if_neg (by simp [hne hnr, hnr'])]
    exact ⟨_, rfl⟩
  rcases hconstruct with ⟨f, hf⟩
  refine ⟨f, hf, ?_⟩
  intro before
  have hmasked := masked_construct hf
  have hbefore := (hmasked.extends_run before).masked hmasked
  constructor
  . intro value hashIndex
    exact hbefore.hashValue_lt value hashIndex
  . intro c value after hc hok
    have hcall := hbefore.mapPeekElem_call hc hok
    have hafter := ((hbefore.extends_call c).masked hbefore).extends_run after
    unfold run at hafter hcall ⊢
    rw [List.foldl_append]
    exact hafter.mapPeekElem hcall

theorem peek_of_added_twoBytes : let p : Params := ⟨2, 4, 3, .jhash⟩
      let value : Value p := .replicate 2 7
      ∃ f, construct p 11 = some f
        ∧ (run f [.push (some value) BPF_ANY]).mapPeekElem (some value) = .ok () := by
  intro p value
  rcases peek_of_added p 11 (by decide) (by decide) (by decide) (by decide) with ⟨f, hf, h⟩
  exact ⟨f, hf, (h []).2 (.push (some value) BPF_ANY) value [] rfl rfl⟩

end BloomFilterMapImpl

end Bpftime.BloomFilter
