import Bpftime.Pgas.Preload.Memmove

/-!
This module contains when the fallback to libc, after some chunks went through, still finds the bytes
of the source.
-/

namespace Bpftime.Pgas.Preload

open WordMem

def remainingAt (n j : ℕ) : ℕ := n - 4096 * j

def offsetAt (dest src : UInt64) (n j : ℕ) : ℕ :=
  chunkOffset (copyBackward dest src n) n (remainingAt n j)

def afterChunks (st : Memories) (dest src : UInt64) (n : ℕ) : ℕ → Memories
  | 0 => st
  | m + 1 =>
    (copyChunk (fun _ => false) dest src (offsetAt dest src n m) (chunkSize (remainingAt n m))
      (afterChunks st dest src n m)).2

structure FirstFault (faults : Faults) (calls k : ℕ) : Prop where
  before : ∀ j < k, faults (calls + j) = false
  fault : faults (calls + k) = true

/-- The local memory has moved what it held before the call. -/
def MovesLocal (st st' : Memories) (dest src : UInt64) (n : ℕ) : Prop :=
  ∀ i < n, st'.loc (shift dest i) = st.loc (shift src i)

/-- The chunks put before the fault leave the local source as it was. -/
def SourceKept (st : Memories) (dest src : UInt64) (n m : ℕ) : Prop :=
  ∀ j < m, ∀ c < chunkSize (remainingAt n j), ∀ i < n,
    shift src i = shift dest (offsetAt dest src n j + c) →
      (afterChunks st dest src n j).server (shift src (offsetAt dest src n j + c))
        = st.loc (shift src i)

section Passes

variable {faults : Faults} {st : Memories} {dest src : UInt64} {n m : ℕ}

theorem remainingAt_succ (n j : ℕ)
    : remainingAt n j - chunkSize (remainingAt n j) = remainingAt n (j + 1) := by
  unfold chunkSize remainingAt
  split <;> omega

theorem offsetAt_add_lt (dest src : UInt64) {j c : ℕ} (hc : c < chunkSize (remainingAt n j))
    : offsetAt dest src n j + c < n := by
  have hchunk := chunkSize_le (remainingAt n j)
  have hremaining : remainingAt n j ≤ n := Nat.sub_le _ _
  unfold offsetAt chunkOffset
  split <;> omega

theorem offsetAt_add_ne {j j' c c' : ℕ} (hj : j < j') (hc : c < chunkSize (remainingAt n j))
    (hc' : c' < chunkSize (remainingAt n j'))
    : offsetAt dest src n j + c ≠ offsetAt dest src n j' + c' := by
  unfold offsetAt chunkOffset chunkSize remainingAt at *
  split at hc <;> split at hc' <;> cases copyBackward dest src n <;>
    simp only [Bool.false_eq_true, if_true, if_false, *] <;> omega

theorem afterChunks_succ (st : Memories) (dest src : UInt64) (n m : ℕ)
    : afterChunks st dest src n (m + 1)
        =
      { loc := put (afterChunks st dest src n m).loc (shift dest (offsetAt dest src n m))
          (fun c => (afterChunks st dest src n m).server (shift src (offsetAt dest src n m + c)))
          (chunkSize (remainingAt n m))
        server := put (afterChunks st dest src n m).server (shift dest (offsetAt dest src n m))
          (fun c => (afterChunks st dest src n m).server (shift src (offsetAt dest src n m + c)))
          (chunkSize (remainingAt n m))
        calls := (afterChunks st dest src n m).calls + 2 } := by
  rw [afterChunks, copyChunk_eq fun _ => rfl]
  simp only [shift_add]

theorem calls_afterChunks (st : Memories) (dest src : UInt64) (n m : ℕ)
    : (afterChunks st dest src n m).calls = st.calls + 2 * m := by
  induction m with
  | zero => rfl
  | succ m ih =>
    rw [afterChunks_succ]
    dsimp only
    omega

theorem copyChunk_of_fault (dest src : UInt64) (offset chunk : ℕ)
    (h : faults st.calls = true ∨ faults (st.calls + 1) = true)
    : ∃ st', copyChunk faults dest src offset chunk st = (false, st') ∧ st'.loc = st.loc := by
  unfold copyChunk cxlmemsimRemoteLoad cxlmemsimRemoteStore
  cases hload : faults st.calls with
  | true => simp
  | false =>
    have hstore : faults (st.calls + 1) = true := by simpa [hload] using h
    simp [hstore]

theorem copyChunk_afterChunks (hload : faults (st.calls + 2 * m) = false)
    (hstore : faults (st.calls + (2 * m + 1)) = false)
    : copyChunk faults dest src (offsetAt dest src n m) (chunkSize (remainingAt n m))
        (afterChunks st dest src n m)
        = (true, afterChunks st dest src n (m + 1)) := by
  have hcalls := calls_afterChunks st dest src n m
  rw [← Nat.add_assoc] at hstore
  rw [afterChunks_succ]
  unfold copyChunk cxlmemsimRemoteLoad cxlmemsimRemoteStore
  simp [hcalls, hload, hstore, shift_add]

section copyChunks

variable {backward : Bool} {fuel remaining : ℕ} {st' : Memories}

theorem copyChunks_of_answer (hne : remaining ≠ 0)
    (h : copyChunk faults dest src (chunkOffset backward n remaining) (chunkSize remaining) st
      = (true, st'))
    : copyChunks faults dest src n backward (fuel + 1) remaining st
        =
      copyChunks faults dest src n backward fuel (remaining - chunkSize remaining) st' := by
  rw [copyChunks, if_neg hne]
  dsimp only
  rw [h]

theorem copyChunks_of_failure (hne : remaining ≠ 0)
    (h : copyChunk faults dest src (chunkOffset backward n remaining) (chunkSize remaining) st
      = (false, st'))
    : copyChunks faults dest src n backward (fuel + 1) remaining st = (false, st') := by
  rw [copyChunks, if_neg hne]
  dsimp only
  rw [h]

end copyChunks

theorem copyChunks_of_fault (dest src : UInt64) {k : ℕ} (h : FirstFault faults st.calls k)
    (hmade : 4096 * (k / 2) < n) (fuel : ℕ)
    : ∀ j, j ≤ k / 2 → k / 2 < j + fuel →
        ∃ st', copyChunks faults dest src n (copyBackward dest src n) fuel (remainingAt n j)
              (afterChunks st dest src n j) = (false, st')
          ∧ st'.loc = (afterChunks st dest src n (k / 2)).loc := by
  induction fuel with
  | zero =>
    intro j hj hfuel
    omega
  | succ fuel ih =>
    intro j hj hfuel
    have hne : remainingAt n j ≠ 0 := by
      unfold remainingAt
      omega
    rcases Nat.lt_or_eq_of_le hj with hlt | rfl
    . have hload := h.before (2 * j) (by omega)
      have hstore := h.before (2 * j + 1) (by omega)
      rw [copyChunks_of_answer hne (copyChunk_afterChunks hload hstore), remainingAt_succ]
      apply ih
      . omega
      . omega
    . have hfault : faults (afterChunks st dest src n (k / 2)).calls = true
          ∨ faults ((afterChunks st dest src n (k / 2)).calls + 1) = true := by
        rw [calls_afterChunks]
        rcases Nat.mod_two_eq_zero_or_one k with hk | hk
        . left
          rw [← h.fault]
          congr 2
          omega
        . right
          rw [← h.fault, Nat.add_assoc]
          congr 2
          omega
      rcases copyChunk_of_fault dest src (offsetAt dest src n (k / 2))
        (chunkSize (remainingAt n (k / 2))) hfault with ⟨st', heq, hloc⟩
      rw [copyChunks_of_failure hne heq]
      exact ⟨st', rfl, hloc⟩

theorem afterChunks_of_ne {x : UInt64} (m : ℕ)
    (h : ∀ j < m, ∀ c < chunkSize (remainingAt n j), x ≠ shift dest (offsetAt dest src n j + c))
    : (afterChunks st dest src n m).loc x = st.loc x
        ∧ (afterChunks st dest src n m).server x = st.server x := by
  induction m with
  | zero => exact ⟨rfl, rfl⟩
  | succ m ih =>
    have hx : ∀ c < chunkSize (remainingAt n m),
        x ≠ shift (shift dest (offsetAt dest src n m)) c := by
      intro c hc
      rw [shift_add]
      exact h m (by omega) c hc
    rw [afterChunks_succ]
    dsimp only
    rw [put_of_ne hx, put_of_ne hx]
    apply ih
    intro j hj
    exact h j (by omega)

theorem loc_afterChunks (hn : n < 2 ^ 64) {j c : ℕ} (hc : c < chunkSize (remainingAt n j)) (m : ℕ)
    (hj : j < m)
    : (afterChunks st dest src n m).loc (shift dest (offsetAt dest src n j + c))
        = (afterChunks st dest src n j).server (shift src (offsetAt dest src n j + c)) := by
  induction m with
  | zero => omega
  | succ m ih =>
    rw [afterChunks_succ]
    dsimp only
    rcases Nat.lt_or_eq_of_le (Nat.le_of_lt_succ hj) with hlt | rfl
    . rw [put_of_ne]
      . exact ih hlt
      . intro c' hc' heq
        rw [shift_add] at heq
        have hlt' := offsetAt_add_lt dest src hc'
        have hlt'' := offsetAt_add_lt dest src hc
        exact offsetAt_add_ne hlt hc hc' (shift_inj (by omega) (by omega) heq)
    . rw [← shift_add, put_shift hc]
      have hle := offsetAt_add_lt dest src hc
      have hchunk := chunkSize_le (remainingAt n j)
      unfold remainingAt at hchunk ⊢
      omega

theorem loc_afterChunks_eq_iff (hn : n < 2 ^ 64) (m : ℕ)
    : (∀ i < n, (afterChunks st dest src n m).loc (shift src i) = st.loc (shift src i))
        ↔ SourceKept st dest src n m := by
  constructor
  . intro h j hj c hc i hi heq
    rw [← loc_afterChunks hn hc m hj, ← heq]
    exact h i hi
  . intro h i hi
    by_cases hover : ∃ j < m, ∃ c < chunkSize (remainingAt n j),
        shift src i = shift dest (offsetAt dest src n j + c)
    . rcases hover with ⟨j, hj, c, hc, heq⟩
      rw [heq, loc_afterChunks hn hc m hj, ← heq]
      exact h j hj c hc i hi heq
    . have hne : ∀ j < m, ∀ c < chunkSize (remainingAt n j),
          shift src i ≠ shift dest (offsetAt dest src n j + c) :=
        fun j hj c hc heq => hover ⟨j, hj, c, hc, heq⟩
      exact (afterChunks_of_ne m hne).1

theorem offsetAt_add_copied (dest src : UInt64) {j j' c : ℕ} (hj : j' < j)
    (hc : c < chunkSize (remainingAt n j'))
    : copiedFrom (copyBackward dest src n) (remainingAt n j) ≤ offsetAt dest src n j' + c
        ∧ offsetAt dest src n j' + c < copiedTo (copyBackward dest src n) n (remainingAt n j) := by
  have hchunk := chunkSize_le (remainingAt n j')
  have hremaining : remainingAt n j' ≤ n := Nat.sub_le _ _
  have hnext := remainingAt_succ n j'
  have hle : remainingAt n j ≤ remainingAt n (j' + 1) := by
    unfold remainingAt
    omega
  unfold offsetAt chunkOffset copiedFrom copiedTo
  cases copyBackward dest src n with
  | true =>
    simp only [if_true]
    omega
  | false =>
    simp only [Bool.false_eq_true, if_false]
    omega

theorem sourceKept_iff (hsrc : src.toNat + n ≤ 2 ^ 64) (hdest : dest.toNat + n ≤ 2 ^ 64)
    : SourceKept st dest src n m
        ↔
      ∀ j < m, ∀ c < chunkSize (remainingAt n j), ∀ i < n,
        shift src i = shift dest (offsetAt dest src n j + c) →
          st.server (shift src (offsetAt dest src n j + c)) = st.loc (shift src i) := by
  have hserver : ∀ j, ∀ c < chunkSize (remainingAt n j),
      (afterChunks st dest src n j).server (shift src (offsetAt dest src n j + c))
        = st.server (shift src (offsetAt dest src n j + c)) := by
    intro j c hc
    refine (afterChunks_of_ne j ?_).2
    intro j' hj c' hc'
    rcases offsetAt_add_copied dest src hj hc' with ⟨hlo, hhi⟩
    exact unread hsrc hdest (Nat.sub_le _ _) hc hlo hhi
  constructor
  . intro h j hj c hc i hi heq
    rw [← hserver j c hc]
    exact h j hj c hc i hi heq
  . intro h j hj c hc i hi heq
    rw [hserver j c hc]
    exact h j hj c hc i hi heq

end Passes

section Fallback

variable {g : Globals} {faults : Faults} {st st' : Memories} {dest src : UInt64} {n k : ℕ}

theorem memmove_of_fault (hinitialized : g.initialized = true)
    (hconnected : g.cxlmemsimConnected = true) (hctx : g.cxlmemsimCtx = true)
    (hdest : isPgasAddr g.routing dest = true) (hsrc : isPgasAddr g.routing src = true)
    (hfault : FirstFault faults st.calls k) (hmade : 4096 * (k / 2) < n)
    (hmove : memmove g faults st dest src n = some st')
    : st'.loc = move (afterChunks st dest src n (k / 2)).loc dest src n := by
  rcases copyChunks_of_fault dest src hfault hmade n 0 (Nat.zero_le _) (by omega)
    with ⟨st'', hchunks, hloc⟩
  change copyChunks faults dest src n (copyBackward dest src n) n n st = (false, st'') at hchunks
  simp only [memmove, hinitialized, hconnected, hctx, hdest, hsrc, hchunks, Bool.and_self,
    Bool.or_self, if_true, Option.bind_eq_bind, Option.bind_eq_some_iff] at hmove
  rcases hmove with ⟨_, _, _, _, hreturn⟩
  cases hreturn
  rw [← hloc]
  rfl

end Fallback

theorem movesLocal_iff (g : Globals) (faults : Faults) (st st' : Memories) (dest src n : UInt64)
    (k : ℕ)
    (hinitialized : g.initialized = true) (hconnected : g.cxlmemsimConnected = true)
    (hctx : g.cxlmemsimCtx = true) (hdest : isPgasAddr g.routing dest = true)
    (hsrc : isPgasAddr g.routing src = true) (hfault : FirstFault faults st.calls k)
    (hmade : 4096 * (k / 2) < n.toNat)
    (hmove : memmove g faults st dest src n.toNat = some st')
    : MovesLocal st st' dest src n.toNat ↔ SourceKept st dest src n.toNat (k / 2) := by
  have hn := n.toNat_lt
  rw [← loc_afterChunks_eq_iff hn]
  unfold MovesLocal
  rw [memmove_of_fault hinitialized hconnected hctx hdest hsrc hfault hmade hmove]
  apply forall_congr'
  intro i
  apply imp_congr_right
  intro hi
  unfold move
  rw [put_shift hi (by omega)]

def secondLoad : Faults := fun k => k = 2

theorem firstFault_secondLoad : FirstFault secondLoad 0 2 := by
  constructor <;> decide

theorem movesLocal_equal : let st : Memories := ⟨fun _ => 0, fun _ => 0, 0⟩
      ∃ st', memmove connected secondLoad st 1 0 5000 = some st' ∧ MovesLocal st st' 1 0 5000 := by
  intro st
  refine ⟨_, rfl, ?_⟩
  apply (movesLocal_iff connected secondLoad st _ 1 0 5000 2 rfl rfl rfl (by decide) (by decide)
    firstFault_secondLoad (by decide) rfl).mpr
  intro j hj c _ i _ _
  have hzero : j = 0 := by omega
  rw [hzero]
  rfl

theorem not_movesLocal_overlapping
    : let st : Memories := ⟨fun x => x.toUInt8, fun x => x.toUInt8, 0⟩
      ∃ st', memmove connected secondLoad st 1 0 5000 = some st' ∧ ¬MovesLocal st st' 1 0 5000 := by
  intro st
  refine ⟨_, rfl, fun h => ?_⟩
  have hloc : Memories.loc _ = move (afterChunks st 1 0 5000 1).loc 1 0 5000 :=
    memmove_of_fault (g := connected) (k := 2) rfl rfl rfl (by decide) (by decide)
      firstFault_secondLoad (by decide) rfl
  have hbyte := h 905 (by decide)
  rw [hloc, move, put_shift (by decide) (by decide)] at hbyte
  -- Byte 905 is the first that the pass has written, and it comes from byte 904.
  have hcopied : (afterChunks st 1 0 5000 1).loc (shift 1 (offsetAt 1 0 5000 0 + 0))
      = st.server (shift 0 (offsetAt 1 0 5000 0 + 0)) :=
    loc_afterChunks (by decide) (by decide) 1 (by decide)
  have hoffset : offsetAt 1 0 5000 0 + 0 = 904 := by decide
  have hplace : shift 0 905 = shift 1 904 := by decide
  rw [hoffset, ← hplace, hbyte] at hcopied
  revert hcopied
  decide

end Bpftime.Pgas.Preload
