import Bpftime.Data.Tiling
import Bpftime.Slug.Impl

/-!
This module contains the proof that the requests of one access tile its translated range line by
line, and that a pure write carries its bytes. An atomic access goes out as a read, without data.
-/

namespace Bpftime.Slug

open WordMem (Mem shift)
open Tiling (Tiles)

/-- The request is the part of the access that begins at its own address. -/
structure IsPart (env : Environment) (addr : UInt64) (kind : AccessKind) (start : ℕ)
    (req : CxlServerRequest) : Prop where
  size_pos : 0 < req.size.toNat
  line_eq : req.addr.toNat / 64 = (req.addr.toNat + req.size.toNat - 1) / 64
  op_eq : req.opType = requestOp kind
  data_eq : isWriteKind kind = true → isReadKind kind = false → env.cfg.cxlSendWrites = true →
    ∀ i < req.size.toNat, req.data i = env.mem (shift addr (req.addr.toNat - start + i))

/-- The requests are, in order, the parts of the translated range. -/
structure Splits (env : Environment) (addr size : UInt64) (kind : AccessKind)
    (reqs : List CxlServerRequest) : Prop where
  consecutive : Tiles (fun r => r.addr.toNat) (fun r => r.size.toNat)
    (translateCxlAddr env.cfg addr).toNat reqs
    ((translateCxlAddr env.cfg addr).toNat + size.toNat)
  disjoint : reqs.Pairwise fun r r' => r.addr.toNat + r.size.toNat ≤ r'.addr.toNat
  cover : ∀ p, (∃ r ∈ reqs, r.addr.toNat ≤ p ∧ p < r.addr.toNat + r.size.toNat)
    ↔ (translateCxlAddr env.cfg addr).toNat ≤ p
      ∧ p < (translateCxlAddr env.cfg addr).toNat + size.toNat
  parts : ∀ r ∈ reqs, IsPart env addr kind (translateCxlAddr env.cfg addr).toNat r

section Loop

variable {env : Environment}

theorem toNat_chunkAt (current remaining : UInt64)
    : (chunkAt current remaining).toNat = min (64 - current.toNat % 64) remaining.toNat := by
  have hoffset : (current &&& 63).toNat = current.toNat % 64 := by
    rw [UInt64.toNat_and]
    exact Nat.and_two_pow_sub_one_eq_mod _ 6
  have hlt : current.toNat % 64 < 64 := Nat.mod_lt _ (by decide)
  have hchunk : (64 - (current &&& 63)).toNat = 64 - current.toNat % 64 := by
    rw [UInt64.toNat_sub_of_le, hoffset]
    . rfl
    . rw [UInt64.le_iff_toNat_le, hoffset]
      exact Nat.le_of_lt hlt
  unfold chunkAt
  dsimp only
  split
  next h =>
    rw [gt_iff_lt, UInt64.lt_iff_toNat_lt, hchunk] at h
    omega
  next h =>
    rw [gt_iff_lt, UInt64.lt_iff_toNat_lt, hchunk] at h
    omega

theorem isPart_requestAt (env : Environment) (addr : UInt64) (kind : AccessKind) (start k : ℕ)
    (current : UInt64) {remaining : UInt64} (hremaining : remaining ≠ 0)
    : IsPart env addr kind start (requestAt env addr kind k remaining current
        (.ofNat (current.toNat - start))) := by
  have hpos : remaining.toNat ≠ 0 := fun hzero => hremaining (UInt64.toNat_inj.mp hzero)
  have hchunk := toNat_chunkAt current remaining
  constructor
  case size_pos =>
    change 0 < (chunkAt current remaining).toNat
    omega
  case line_eq =>
    change current.toNat / 64 = (current.toNat + (chunkAt current remaining).toNat - 1) / 64
    omega
  case op_eq => rfl
  case data_eq =>
    intro hwrite hread hsend i hi
    have hop : requestOp kind = .write := by simp [requestOp, hwrite, hread]
    change i < (chunkAt current remaining).toNat at hi
    unfold requestAt
    dsimp only
    rw [if_pos ⟨hop, hsend⟩, if_pos hi, ← WordMem.shift_add]
    rfl

theorem sendLoop_eq (addr : UInt64) (kind : AccessKind) {start : ℕ}
    (hserver : ∀ k, exchange env k = true) (fuel : ℕ)
    : ∀ k remaining current sourceOffset a, remaining.toNat ≤ fuel →
        (remaining ≠ 0 → current.toNat = a) → sourceOffset = .ofNat (a - start) → start ≤ a →
        a + remaining.toNat ≤ 2 ^ 64 →
        ∃ reqs, sendLoop env addr kind fuel k remaining current sourceOffset = some ⟨reqs, false⟩
          ∧ Tiles (fun r => r.addr.toNat) (fun r => r.size.toNat) a reqs (a + remaining.toNat)
          ∧ ∀ r ∈ reqs, IsPart env addr kind start r := by
  induction fuel with
  | zero =>
    intro k remaining current sourceOffset a hfuel _ _ _ _
    have hzero : remaining = 0 := UInt64.toNat_inj.mp (Nat.le_zero.mp hfuel)
    subst hzero
    refine ⟨[], by simp [sendLoop], rfl, by simp⟩
  | succ fuel ih =>
    intro k remaining current sourceOffset a hfuel hcurrent hoffset hstart hend
    unfold sendLoop
    by_cases hzero : remaining = 0
    . subst hzero
      exact ⟨[], by simp, rfl, by simp⟩
    . have ha := hcurrent hzero
      subst ha
      subst hoffset
      have hchunk := toNat_chunkAt current remaining
      have hpos : remaining.toNat ≠ 0 := fun h => hzero (UInt64.toNat_inj.mp h)
      have hle : chunkAt current remaining ≤ remaining := by
        rw [UInt64.le_iff_toNat_le]
        omega
      have hrest : (remaining - chunkAt current remaining).toNat
          = remaining.toNat - (chunkAt current remaining).toNat := UInt64.toNat_sub_of_le _ _ hle
      have hcursor : remaining - chunkAt current remaining ≠ 0 →
          (current + chunkAt current remaining).toNat
            = current.toNat + (chunkAt current remaining).toNat := by
        intro hmore
        have hmore' : (remaining - chunkAt current remaining).toNat ≠ 0 :=
          fun h => hmore (UInt64.toNat_inj.mp h)
        rw [UInt64.toNat_add]
        exact Nat.mod_eq_of_lt (by omega)
      have hsource : .ofNat (current.toNat - start) + chunkAt current remaining
          = UInt64.ofNat (current.toNat + (chunkAt current remaining).toNat - start) := by
        rw [Nat.sub_add_comm hstart, UInt64.ofNat_add, UInt64.ofNat_toNat]
      have hend' : current.toNat + (chunkAt current remaining).toNat
          + (remaining - chunkAt current remaining).toNat = current.toNat + remaining.toNat := by
        omega
      rcases ih (k + 1) _ _ _ _ (by omega) hcursor hsource (by omega) (by omega)
        with ⟨reqs, hloop, htiles, hparts⟩
      rw [hend'] at htiles
      rw [if_neg hzero]
      dsimp only
      rw [if_pos (hserver k)]
      refine ⟨requestAt env addr kind k remaining current (.ofNat (current.toNat - start)) :: reqs,
        ?_, ⟨rfl, htiles⟩, ?_⟩
      . change (sendLoop env addr kind fuel (k + 1) (remaining - chunkAt current remaining)
          (current + chunkAt current remaining)
          (.ofNat (current.toNat - start) + chunkAt current remaining)).map _ = _
        rw [hloop]
        rfl
      . intro r hr
        cases hr with
        | head => exact isPart_requestAt env addr kind start k current hzero
        | tail _ hr => exact hparts r hr

end Loop

theorem sendCxlAccess_splits (env : Environment) (addr size : UInt64) (kind : AccessKind)
    (hserver : ∀ k, exchange env k = true)
    (hrange : (translateCxlAddr env.cfg addr).toNat + size.toNat ≤ 2 ^ 64)
    : ∃ reqs, sendCxlAccess env size.toNat addr size kind = some ⟨reqs, false⟩
        ∧ Splits env addr size kind reqs := by
  have henabled : env.cfg.cxlEnabled = true := (Bool.and_eq_true_iff.mp (hserver 0)).1
  have hloop := sendLoop_eq addr kind hserver size.toNat 0 size
    (translateCxlAddr env.cfg addr) 0 (translateCxlAddr env.cfg addr).toNat (Nat.le_refl _)
    (fun _ => rfl) (by rw [Nat.sub_self]; rfl) (Nat.le_refl _) hrange
  rcases hloop with ⟨reqs, hloop, htiles, hparts⟩
  have hsend : sendCxlAccess env size.toNat addr size kind = some ⟨reqs, false⟩ := by
    unfold sendCxlAccess
    rw [henabled]
    by_cases hzero : size = 0
    . rw [← hloop]
      simp [hzero, sendLoop]
    . simpa [hzero] using hloop
  exact ⟨reqs, hsend, htiles, htiles.pairwise, fun p => htiles.mem_iff, hparts⟩

def answering : Environment where
  cfg :=
    { cxlEnabled := true
      cxlSendWrites := true
      regionBase := 0x1000
      regionSize := 0x1000
      cxlAddrBase := 0x20 }
  mem x := x.toUInt8
  nowNs _ := 0
  server _ := true

theorem sendCxlAccess_splits_store
    : ∃ reqs, sendCxlAccess answering 100 0x1005 100 .store = some ⟨reqs, false⟩
        ∧ Splits answering 0x1005 100 .store reqs :=
  sendCxlAccess_splits answering 0x1005 100 .store (fun _ => rfl) (by decide)

theorem sendCxlAccess_atomic_data_ne
    : isWriteKind .atomic = true ∧ answering.cfg.cxlSendWrites = true
        ∧ (∀ k, exchange answering k = true)
        ∧ ∃ req, sendCxlAccess answering 1 0x1005 1 .atomic = some ⟨[req], false⟩
          ∧ req.addr = translateCxlAddr answering.cfg 0x1005 ∧ req.size = 1
          ∧ req.data 0 ≠ answering.mem 0x1005 := by
  refine ⟨rfl, rfl, fun _ => rfl, requestAt answering 0x1005 .atomic 0 1 0x25 0, rfl, rfl, rfl, ?_⟩
  decide

end Bpftime.Slug
