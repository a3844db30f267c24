import Bpftime.Pgas.Preload.Impl

/-!
This module contains the proof that the preloaded `memmove` moves the bytes of the server and of the
local shadow chunk by chunk, unless the search for the nodes divides by zero.
-/

namespace Bpftime.Pgas.Preload

open WordMem

variable {faults : Faults} {st₀ st : Memories} {dest src : UInt64} {n : ℕ}

theorem chunkSize_le (remaining : ℕ) : chunkSize remaining ≤ remaining := by
  unfold chunkSize
  split <;> omega

theorem chunkSize_pos {remaining : ℕ} (h : remaining ≠ 0) : 0 < chunkSize remaining := by
  unfold chunkSize
  split <;> omega

def copiedFrom (copyBackward : Bool) (remaining : ℕ) : ℕ := if copyBackward then remaining else 0

def copiedTo (copyBackward : Bool) (n remaining : ℕ) : ℕ :=
  if copyBackward then n else n - remaining

/-- The offsets from `lo` to `hi` hold the bytes the server had at the source. -/
structure Copying (st₀ st : Memories) (dest src : UInt64) (lo hi : ℕ) : Prop where
  server : Moved st₀.server st.server dest (fun i => st₀.server (shift src i)) lo hi
  loc : Moved st₀.loc st.loc dest (fun i => st₀.server (shift src i)) lo hi

theorem copyChunk_eq (hfaults : ∀ k, faults k = false) (offset chunk : ℕ) (st : Memories)
    : copyChunk faults dest src offset chunk st
        =
      (true,
        { loc := put st.loc (shift dest offset) (fun i => st.server (shift (shift src offset) i)) chunk
          server :=
            put st.server (shift dest offset) (fun i => st.server (shift (shift src offset) i)) chunk
          calls := st.calls + 2 }) := by
  unfold copyChunk cxlmemsimRemoteLoad cxlmemsimRemoteStore
  simp [hfaults]

theorem unread {remaining i j : ℕ} (hsrc : src.toNat + n ≤ 2 ^ 64) (hdest : dest.toNat + n ≤ 2 ^ 64)
    (hremaining : remaining ≤ n)
    (hi : i < chunkSize remaining)
    (hlo : copiedFrom (copyBackward dest src n) remaining ≤ j)
    (hhi : j < copiedTo (copyBackward dest src n) n remaining)
    : shift src (chunkOffset (copyBackward dest src n) n remaining + i) ≠ shift dest j := by
  have hchunk := chunkSize_le remaining
  intro heq
  have hnat := congrArg UInt64.toNat heq
  cases hb : copyBackward dest src n with
  | true =>
    rw [hb] at hlo hhi hnat
    unfold chunkOffset copiedFrom copiedTo at *
    simp only [if_true] at hlo hhi hnat
    rw [toNat_shift (by omega), toNat_shift (by omega)] at hnat
    unfold copyBackward at hb
    simp only [gt_iff_lt, Bool.and_eq_true, decide_eq_true_eq, UInt64.lt_iff_toNat_lt] at hb
    omega
  | false =>
    rw [hb] at hlo hhi hnat
    unfold chunkOffset copiedFrom copiedTo at *
    simp only [Bool.false_eq_true, if_false] at hlo hhi hnat
    rw [toNat_shift (by omega), toNat_shift (by omega)] at hnat
    unfold copyBackward at hb
    have hlt : src < dest := by
      rw [UInt64.lt_iff_toNat_lt]
      omega
    have hle : src ≤ dest := by
      rw [UInt64.le_iff_toNat_le]
      omega
    simp only [gt_iff_lt, hlt, decide_true, Bool.true_and, decide_eq_false_iff_not] at hb
    rw [UInt64.toNat_sub_of_le _ _ hle] at hb
    omega

theorem Copying.copyChunk {remaining : ℕ} (hsrc : src.toNat + n ≤ 2 ^ 64)
    (hdest : dest.toNat + n ≤ 2 ^ 64) (hremaining : remaining ≤ n)
    (h : Copying st₀ st dest src (copiedFrom (copyBackward dest src n) remaining)
      (copiedTo (copyBackward dest src n) n remaining))
    (hfaults : ∀ k, faults k = false)
    : ∃ st', copyChunk faults dest src (chunkOffset (copyBackward dest src n) n remaining)
          (chunkSize remaining) st = (true, st')
        ∧ Copying st₀ st' dest src
            (copiedFrom (copyBackward dest src n) (remaining - chunkSize remaining))
            (copiedTo (copyBackward dest src n) n (remaining - chunkSize remaining)) := by
  have hchunk := chunkSize_le remaining
  -- the chunk is read as the server has held it at the start
  have hread : ∀ i < chunkSize remaining,
      st.server (shift (shift src (chunkOffset (copyBackward dest src n) n remaining)) i)
        = st₀.server (shift src (chunkOffset (copyBackward dest src n) n remaining + i)) := by
    intro i hi
    rw [shift_add]
    apply h.server.frame
    intro j hlo hhi
    exact unread hsrc hdest hremaining hi hlo hhi
  have hjoin (i : ℕ)
      : copiedFrom (copyBackward dest src n) (remaining - chunkSize remaining) ≤ i
            ∧ i < copiedTo (copyBackward dest src n) n (remaining - chunkSize remaining)
          ↔
        (copiedFrom (copyBackward dest src n) remaining ≤ i
            ∧ i < copiedTo (copyBackward dest src n) n remaining)
          ∨
        (chunkOffset (copyBackward dest src n) n remaining ≤ i
            ∧ i < chunkOffset (copyBackward dest src n) n remaining + chunkSize remaining) := by
    unfold copiedFrom copiedTo chunkOffset
    cases copyBackward dest src n with
    | true =>
      simp only [if_true]
      omega
    | false =>
      simp only [Bool.false_eq_true, if_false]
      omega
  have hbound : copiedTo (copyBackward dest src n) n (remaining - chunkSize remaining) ≤ 2 ^ 64 := by
    unfold copiedTo
    split <;> omega
  refine ⟨_, copyChunk_eq hfaults _ _ st, ?_, ?_⟩
  . dsimp only
    rw [put_congr hread]
    exact h.server.join hbound hjoin
  . dsimp only
    rw [put_congr hread]
    exact h.loc.join hbound hjoin

theorem Copying.copyChunks (hsrc : src.toNat + n ≤ 2 ^ 64) (hdest : dest.toNat + n ≤ 2 ^ 64)
    (hfaults : ∀ k, faults k = false) (fuel : ℕ)
    : ∀ remaining st, remaining ≤ fuel → remaining ≤ n →
        Copying st₀ st dest src (copiedFrom (copyBackward dest src n) remaining)
          (copiedTo (copyBackward dest src n) n remaining) →
        ∃ st', Preload.copyChunks faults dest src n (copyBackward dest src n) fuel remaining st
              = (true, st')
          ∧ Copying st₀ st' dest src (copiedFrom (copyBackward dest src n) 0)
              (copiedTo (copyBackward dest src n) n 0) := by
  induction fuel with
  | zero =>
    intro remaining st hfuel _ h
    have hzero : remaining = 0 := by omega
    rw [hzero] at h
    exact ⟨st, rfl, h⟩
  | succ fuel ih =>
    intro remaining st hfuel hremaining h
    unfold Preload.copyChunks
    split
    next hzero =>
      rw [hzero] at h
      exact ⟨st, rfl, h⟩
    next hne =>
      have hpos := chunkSize_pos hne
      rcases h.copyChunk hsrc hdest hremaining hfaults with ⟨st', hchunk, h'⟩
      dsimp only
      rw [hchunk]
      apply ih
      . omega
      . omega
      . exact h'

theorem copying_start (st : Memories) (dest src : UInt64) (n : ℕ)
    : Copying st st dest src (copiedFrom (copyBackward dest src n) n)
        (copiedTo (copyBackward dest src n) n n) := by
  have heq : copiedFrom (copyBackward dest src n) n = copiedTo (copyBackward dest src n) n n := by
    unfold copiedFrom copiedTo
    split
    next => rfl
    next => omega
  rw [heq]
  constructor <;> exact moved_empty _ _ _ _

/-- Without registered regions, the range has at least one byte for each of several nodes. -/
def State.Divides (s : State) : Prop :=
  1 < s.config.numNodes → s.regions = none → s.config.numNodes.toNat ≤ s.config.size.toNat

theorem routeToNode_isSome_iff {s : State} {addr : UInt64} (h : isPgasAddr s addr = true)
    : (∃ node, routeToNode s addr = some node) ↔ s.Divides := by
  unfold routeToNode State.Divides
  rw [← UInt16.not_le]
  by_cases hone : s.config.numNodes ≤ 1
  . simp [hone]
  . rw [if_neg hone, if_pos h]
    cases s.regions with
    | some regions =>
      simp only [reduceCtorEq, false_implies, implies_true, iff_true]
      split <;> exact ⟨_, rfl⟩
    | none =>
      have hpos : 0 < s.config.numNodes.toNat := by
        rw [UInt16.le_iff_toNat_le] at hone
        omega
      have hzero : s.config.size / s.config.numNodes.toUInt64 = 0
          ↔ ¬s.config.numNodes.toNat ≤ s.config.size.toNat := by
        rw [← UInt64.toNat_inj, UInt64.toNat_div, UInt16.toNat_toUInt64]
        change _ / _ = 0 ↔ _
        rw [Nat.div_eq_zero_iff]
        omega
      simp only [hzero]
      split <;> simp_all

/-- The bytes of the server are moved, and the local memory has a copy. -/
structure Moves (st st' : Memories) (dest src : UInt64) (n : ℕ) : Prop where
  server : st'.server = move st.server dest src n
  frame : ∀ x, (∀ i < n, x ≠ shift dest i) → st'.server x = st.server x
  shadow : ∀ i < n, st'.loc (shift dest i) = st'.server (shift dest i)

theorem copyChunks_moves (hfaults : ∀ k, faults k = false) (hsrc : src.toNat + n ≤ 2 ^ 64)
    (hdest : dest.toNat + n ≤ 2 ^ 64) (st : Memories)
    : ∃ st', copyChunks faults dest src n (copyBackward dest src n) n n st = (true, st')
        ∧ Moves st st' dest src n := by
  rcases Copying.copyChunks hsrc hdest hfaults n n st (Nat.le_refl n) (Nat.le_refl n)
    (copying_start st dest src n) with ⟨st', hchunks, h⟩
  have hlo : copiedFrom (copyBackward dest src n) 0 = 0 := by
    unfold copiedFrom
    rw [ite_self]
  have hhi : copiedTo (copyBackward dest src n) n 0 = n := by
    unfold copiedTo
    rw [Nat.sub_zero, ite_self]
  rw [hlo, hhi] at h
  refine ⟨st', hchunks, h.server.eq_put (by omega), ?_, ?_⟩
  . intro x hx
    apply h.server.frame
    intro i _ hi
    exact hx i hi
  . intro i hi
    rw [h.loc.copied i (Nat.zero_le i) hi, h.server.copied i (Nat.zero_le i) hi]

theorem memmove_moves_iff (g : Globals) (faults : Faults) (st : Memories) (dest src : UInt64) (n : ℕ)
    (hinitialized : g.initialized = true) (hconnected : g.cxlmemsimConnected = true)
    (hctx : g.cxlmemsimCtx = true) (hfaults : ∀ k, faults k = false)
    (hdest : isPgasAddr g.routing dest = true) (hsrc : isPgasAddr g.routing src = true)
    (hsrcEnd : src.toNat + n ≤ 2 ^ 64) (hdestEnd : dest.toNat + n ≤ 2 ^ 64)
    : (∃ st', memmove g faults st dest src n = some st' ∧ Moves st st' dest src n)
        ↔ g.routing.Divides := by
  constructor
  . rintro ⟨st', hmove, _⟩
    rw [← routeToNode_isSome_iff hdest]
    cases hroute : routeToNode g.routing dest with
    | some node => exact ⟨node, rfl⟩
    | none => simp [memmove, nodeOf, hinitialized, hdest, hroute] at hmove
  . intro hdivides
    rcases (routeToNode_isSome_iff hdest).mpr hdivides with ⟨destNode, hdestNode⟩
    rcases (routeToNode_isSome_iff hsrc).mpr hdivides with ⟨srcNode, hsrcNode⟩
    rcases copyChunks_moves hfaults hsrcEnd hdestEnd st with ⟨st', hchunks, hmoves⟩
    refine ⟨st', ?_, hmoves⟩
    simp [memmove, nodeOf, hinitialized, hconnected, hctx, hdest, hsrc, hdestNode, hsrcNode, hchunks]

def connected : Globals where
  initialized := true
  routing :=
    { config := { base := 0, size := 1048576, numNodes := 2, localNodeId := 0 }
      regions := none }
  cxlmemsimConnected := true
  cxlmemsimCtx := true

theorem memmove_moves_overlapping : let st : Memories := ⟨fun _ => 0, fun x => x.toUInt8, 0⟩
      ∃ st', memmove connected (fun _ => false) st 1 0 10000 = some st' ∧ Moves st st' 1 0 10000 := by
  intro st
  exact (memmove_moves_iff connected (fun _ => false) st 1 0 10000 rfl rfl rfl (fun _ => rfl)
    (by decide) (by decide) (by decide) (by decide)).mpr fun _ _ => by decide

def threeBytes : Globals :=
  { connected with
    routing :=
      { config := { base := 0x1000, size := 3, numNodes := 4, localNodeId := 0 }
        regions := none } }

theorem memmove_fourNodes : isPgasAddr threeBytes.routing 0x1000 = true
        ∧ isPgasAddr threeBytes.routing 0x1001 = true
        ∧ ∀ st, memmove threeBytes (fun _ => false) st 0x1001 0x1000 1 = none :=
  ⟨by decide, by decide, fun _ => rfl⟩

end Bpftime.Pgas.Preload
