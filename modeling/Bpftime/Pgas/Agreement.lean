import Bpftime.Pgas.Route
import Mathlib.Logic.Basic

/-!
This module contains when the five routing functions agree.
-/

namespace Bpftime.Pgas

/-- The five routing functions send the address to one node. -/
def RoutesAgree (c : Config) (addr : UInt64) : Prop :=
  ∃ node, AttachEntry.routeToNode c addr = node ∧ Hooker.addrToNode c addr = node ∧
    (StalkerMov.movLoadCallout c addr).node c = node ∧
    (StalkerMov.movStoreCallout c addr).node c = node ∧
    Preload.routeToNode ⟨c, none⟩ addr = some node

namespace Config

variable {c : Config} {addr : UInt64}

def offset (c : Config) (addr : UInt64) : ℕ := addr.toNat - c.base.toNat

def share (c : Config) : ℕ := c.size.toNat / c.numNodes.toNat

def quot (c : Config) (addr : UInt64) : ℕ := c.offset addr / c.share

theorem Inside.toNat_sub (h : c.Inside addr) : (addr - c.base).toNat = c.offset addr := by
  apply UInt64.toNat_sub_of_le
  rw [UInt64.le_iff_toNat_le]
  exact h.1

theorem Inside.offset_lt (h : c.Inside addr) : c.offset addr < c.size.toNat := by
  unfold Inside at h
  unfold offset
  omega

theorem toNat_region : (c.size / c.numNodes.toUInt64).toNat = c.share := by
  rw [UInt64.toNat_div, UInt16.toNat_toUInt64]
  rfl

theorem region_eq_zero_iff : c.size / c.numNodes.toUInt64 = 0 ↔ c.share = 0 := by
  rw [← UInt64.toNat_inj, toNat_region]
  rfl

theorem Inside.toNat_quot (h : c.Inside addr)
    : ((addr - c.base) / (c.size / c.numNodes.toUInt64)).toNat = c.quot addr := by
  rw [UInt64.toNat_div, toNat_region, h.toNat_sub]
  rfl

def Fits (c : Config) : Prop := c.base.toNat + c.size.toNat < 2 ^ 64

instance : Decidable c.Fits := inferInstanceAs (Decidable (_ < _))

theorem Inside.lt_end_iff (h : c.Inside addr) : addr < c.base + c.size ↔ c.Fits := by
  have haddr := addr.toNat_lt
  have hsize := c.size.toNat_lt
  unfold Inside at h
  unfold Fits
  rw [UInt64.lt_iff_toNat_lt, UInt64.toNat_add]
  constructor
  . intro hlt
    apply Nat.lt_of_not_le
    intro hge
    rw [Nat.mod_eq_sub_mod (by omega), Nat.mod_eq_of_lt (by omega)] at hlt
    omega
  . intro hlt
    rw [Nat.mod_eq_of_lt hlt]
    exact h.2

def clamp (c : Config) (q : ℕ) : UInt16 :=
  if c.numNodes.toNat ≤ q then c.numNodes - 1 else UInt16.ofNat q

theorem toNat_clamp (hnodes : 1 ≤ c.numNodes.toNat) (q : ℕ)
    : (c.clamp q).toNat = min q (c.numNodes.toNat - 1) := by
  have hlt := c.numNodes.toNat_lt
  unfold clamp
  split
  next hle =>
    rw [UInt16.toNat_sub_of_le _ _ (by rw [UInt16.le_iff_toNat_le]; exact hnodes)]
    change c.numNodes.toNat - 1 = _
    omega
  next hgt =>
    rw [UInt16.toNat_ofNat', Nat.mod_eq_of_lt (by omega)]
    omega

theorem clamp_toNat (node : UInt64)
    : (if c.numNodes.toUInt64 ≤ node then c.numNodes - 1 else node.toUInt16)
        =
      c.clamp node.toNat := by
  unfold clamp
  simp only [UInt64.le_iff_toNat_le, UInt16.toNat_toUInt64]
  split
  next => rfl
  next =>
    rw [← UInt16.toNat_inj]
    simp

theorem numNodes_le_one_iff : c.numNodes ≤ 1 ↔ c.numNodes.toNat ≤ 1 := by
  rw [UInt16.le_iff_toNat_le]
  rfl

theorem Inside.size_ne (h : c.Inside addr) : c.size ≠ 0 := by
  intro heq
  have hlt := h.offset_lt
  rw [heq] at hlt
  simp at hlt

theorem Inside.base_le (h : c.Inside addr) : c.base ≤ addr := by
  rw [UInt64.le_iff_toNat_le]
  exact h.1

theorem Inside.attach_eq (h : c.Inside addr) : AttachEntry.routeToNode c addr
        =
      if c.numNodes.toNat ≤ 1 ∨ ¬ c.Fits ∨ c.share = 0 then c.localNodeId
      else c.clamp (c.quot addr) := by
  have hrange : (addr < c.base ∨ c.base + c.size ≤ addr) ↔ ¬ c.Fits := by
    rw [← h.lt_end_iff, UInt64.not_lt]
    simp [UInt64.not_lt.mpr h.base_le]
  unfold AttachEntry.routeToNode
  simp only [numNodes_le_one_iff, h.size_ne, hrange, region_eq_zero_iff, clamp_toNat, h.toNat_quot,
    ↓reduceIte]
  rw [ite_or, ite_or]

theorem Inside.hooker_eq (h : c.Inside addr) (hnodes : 1 ≤ c.numNodes.toNat)
    : Hooker.addrToNode c addr
        =
      if ¬ c.Fits ∨ c.share = 0 then c.localNodeId else c.clamp (c.quot addr) := by
  have hrange : Hooker.isPgasAddr c addr = true ↔ c.Fits := by
    unfold Hooker.isPgasAddr
    simp [h.base_le, h.lt_end_iff]
  have hne : ¬ (c.numNodes = 0 ∨ c.size = 0) := by
    simp only [h.size_ne, or_false]
    intro heq
    rw [heq] at hnodes
    simp at hnodes
  unfold Hooker.addrToNode
  simp only [hrange, hne, region_eq_zero_iff, clamp_toNat, h.toNat_quot, ↓reduceIte]
  rw [ite_or, ite_not]

theorem Inside.callout_eq (h : c.Inside addr) (hnodes : 1 ≤ c.numNodes.toNat)
    : (StalkerMov.callout c addr).node c
        =
      if c.share = 0 then c.localNodeId else c.clamp (c.quot addr % 2 ^ 16) := by
  have hrange : (StalkerMov.isInPgasRange addr c.base c.size && c.numNodes != 0) = true := by
    have hoff := h.offset_lt
    have hne : c.numNodes ≠ 0 := by
      intro heq
      rw [heq] at hnodes
      simp at hnodes
    unfold StalkerMov.isInPgasRange
    simp [h.size_ne, h.base_le, hne, UInt64.lt_iff_toNat_lt, h.toNat_sub, hoff]
  have hnode : (StalkerMov.callout c addr).node c
      = (StalkerMov.calloutNode c addr).getD c.localNodeId := by
    unfold StalkerMov.callout
    cases StalkerMov.calloutNode c addr with
    | none => rfl
    | some node =>
      dsimp only
      split
      next heq =>
        rw [heq]
        rfl
      next => rfl
  rw [hnode]
  unfold StalkerMov.calloutNode
  rw [if_pos hrange]
  simp only [region_eq_zero_iff]
  split
  next => rfl
  next =>
    unfold clamp
    simp only [UInt16.le_iff_toNat_le, UInt64.toNat_toUInt16, h.toNat_quot]
    split
    next => rfl
    next =>
      rw [Option.getD_some, ← UInt16.toNat_inj]
      simp [h.toNat_quot]

theorem Inside.preload_eq (h : c.Inside addr) : Preload.routeToNode ⟨c, none⟩ addr
        =
      if c.numNodes.toNat ≤ 1 ∨ ¬ c.Fits then some c.localNodeId
      else if c.share = 0 then none
      else some (UInt16.ofNat (c.quot addr % 2 ^ 16 % c.numNodes.toNat)) := by
  have hrange : Preload.isPgasAddr ⟨c, none⟩ addr = true ↔ c.Fits := by
    unfold Preload.isPgasAddr
    simp [h.base_le, h.lt_end_iff]
  have hnode : ((addr - c.base) / (c.size / c.numNodes.toUInt64)).toUInt16 % c.numNodes
      = UInt16.ofNat (c.quot addr % 2 ^ 16 % c.numNodes.toNat) := by
    rw [← UInt16.toNat_inj, UInt16.toNat_mod, UInt64.toNat_toUInt16, h.toNat_quot]
    rw [UInt16.toNat_ofNat']
    symm
    apply Nat.mod_eq_of_lt
    apply Nat.lt_of_le_of_lt (Nat.mod_le _ _)
    exact Nat.mod_lt _ (by decide)
  unfold Preload.routeToNode
  simp only [numNodes_le_one_iff, hrange, region_eq_zero_iff, hnode]
  rw [ite_or, ite_not]

theorem share_eq_zero_iff (hnodes : 1 ≤ c.numNodes.toNat)
    : c.share = 0 ↔ c.size.toNat < c.numNodes.toNat := by
  unfold share
  rw [Nat.div_eq_zero_iff]
  omega

theorem Inside.quot_le (h : c.Inside addr) (hnodes : 1 ≤ c.numNodes.toNat) (hshare : c.share ≠ 0)
    : c.quot addr + 2 ≤ 2 * c.numNodes.toNat := by
  have hoff := h.offset_lt
  have hsize : c.size.toNat < (c.share + 1) * c.numNodes.toNat := by
    rw [Nat.mul_comm]
    exact Nat.lt_mul_div_succ _ hnodes
  have hrest : c.numNodes.toNat - 1 ≤ c.share * (c.numNodes.toNat - 1) := by
    apply Nat.le_mul_of_pos_left
    omega
  apply Nat.succ_le_of_lt
  rw [← Nat.lt_sub_iff_add_lt]
  unfold quot
  rw [Nat.div_lt_iff_lt_mul (by omega)]
  have hmul : (2 * c.numNodes.toNat - 1) * c.share
      = c.share * c.numNodes.toNat + c.share * (c.numNodes.toNat - 1) := by
    rw [← Nat.mul_add, Nat.mul_comm]
    congr 1
    omega
  rw [Nat.add_mul] at hsize
  omega

structure OnePartition (c : Config) (addr : UInt64) : Prop where
  fits : c.Fits → c.numNodes.toNat ≤ c.size.toNat ∧ (c.numNodes.toNat = 1 → c.localNodeId = 0) ∧
    c.offset addr < c.numNodes.toNat * c.share
  -- only the mov callouts take an address of a region that ends at `2^64` or later for a shared one
  wraps : ¬ c.Fits → c.share ≠ 0 →
    min (c.quot addr % 2 ^ 16) (c.numNodes.toNat - 1) = c.localNodeId.toNat

theorem Inside.agree_single (h : c.Inside addr) (hnodes : c.numNodes.toNat = 1) (hfits : c.Fits)
    : RoutesAgree c addr ↔ c.localNodeId = 0 := by
  have hshare : c.share = c.size.toNat := by
    unfold share
    rw [hnodes, Nat.div_one]
  have hoff := h.offset_lt
  have hquot : c.quot addr = 0 := by
    unfold quot
    rw [hshare]
    exact Nat.div_eq_of_lt hoff
  have hclamp : c.clamp 0 = 0 := by
    rw [← UInt16.toNat_inj, toNat_clamp (by omega)]
    rw [hnodes]
    rfl
  unfold RoutesAgree StalkerMov.movLoadCallout StalkerMov.movStoreCallout
  rw [h.attach_eq, h.hooker_eq (by omega), h.callout_eq (by omega), h.preload_eq, hquot]
  rw [if_pos (by omega), if_neg (by simp [hfits, hshare]; omega), if_neg (by omega),
    if_pos (by omega)]
  simp only [Nat.zero_mod, hclamp]
  constructor
  . intro ⟨node, hlocal, hzero, _⟩
    rw [hlocal, hzero]
  . intro hlocal
    exact ⟨0, hlocal, rfl, rfl, rfl, by rw [hlocal]⟩

theorem Inside.agree_many (h : c.Inside addr) (hnodes : 2 ≤ c.numNodes.toNat) (hfits : c.Fits)
    (hshare : c.share ≠ 0)
    : RoutesAgree c addr ↔ c.quot addr < c.numNodes.toNat := by
  have hquot := h.quot_le (by omega) hshare
  have hlt := c.numNodes.toNat_lt
  have hcond : ¬ (c.numNodes.toNat ≤ 1 ∨ ¬ c.Fits ∨ c.share = 0) := by
    simp [hfits, hshare]
    omega
  unfold RoutesAgree StalkerMov.movLoadCallout StalkerMov.movStoreCallout
  rw [h.attach_eq, h.hooker_eq (by omega), h.callout_eq (by omega), h.preload_eq]
  rw [if_neg hcond, if_neg (by simp [hfits, hshare]), if_neg hshare,
    if_neg (by simp [hfits]; omega), if_neg hshare]
  simp only [Option.some.injEq, ← UInt16.toNat_inj, toNat_clamp (Nat.le_of_lt hnodes),
    UInt16.toNat_ofNat']
  have hmod : c.quot addr % 2 ^ 16 % c.numNodes.toNat < 2 ^ 16 := by
    apply Nat.lt_of_le_of_lt (Nat.mod_le _ _)
    exact Nat.mod_lt _ (by decide)
  rw [Nat.mod_eq_of_lt hmod]
  constructor
  . intro ⟨node, hattach, _, _, _, hpreload⟩
    apply Nat.lt_of_not_le
    intro hge
    -- behind the shares of the nodes the remainder never comes to the last node
    have hrem : c.quot addr % 2 ^ 16 % c.numNodes.toNat < c.numNodes.toNat - 1 := by
      by_cases hsmall : c.quot addr < 2 ^ 16
      . rw [Nat.mod_eq_of_lt hsmall, Nat.mod_eq_sub_mod hge, Nat.mod_eq_of_lt (by omega)]
        omega
      . rw [@Nat.mod_eq_sub_mod _ (2 ^ 16) (by omega), @Nat.mod_eq_of_lt _ (2 ^ 16) (by omega)]
        rw [Nat.mod_eq_of_lt (by omega)]
        omega
    omega
  . intro hlt'
    refine ⟨c.clamp (c.quot addr), ?_⟩
    rw [toNat_clamp (by omega)]
    rw [@Nat.mod_eq_of_lt _ (2 ^ 16) (by omega), Nat.mod_eq_of_lt hlt']
    omega

theorem Inside.agree_wrapped (h : c.Inside addr) (hnodes : 1 ≤ c.numNodes.toNat) (hfits : ¬ c.Fits)
    : RoutesAgree c addr
        ↔
      (c.share ≠ 0 →
        min (c.quot addr % 2 ^ 16) (c.numNodes.toNat - 1) = c.localNodeId.toNat) := by
  unfold RoutesAgree StalkerMov.movLoadCallout StalkerMov.movStoreCallout
  rw [h.attach_eq, h.hooker_eq hnodes, h.callout_eq hnodes, h.preload_eq]
  rw [if_pos (show c.numNodes.toNat ≤ 1 ∨ ¬ c.Fits ∨ c.share = 0 from .inr (.inl hfits)),
    if_pos (show ¬ c.Fits ∨ c.share = 0 from .inl hfits),
    if_pos (show c.numNodes.toNat ≤ 1 ∨ ¬ c.Fits from .inr hfits)]
  rw [← toNat_clamp hnodes, UInt16.toNat_inj]
  constructor
  . intro ⟨node, hlocal, _, hcallout, _⟩ hshare
    rw [if_neg hshare] at hcallout
    rw [hcallout, hlocal]
  . intro hclamp
    refine ⟨c.localNodeId, rfl, rfl, ?_⟩
    split
    next => exact ⟨rfl, rfl, rfl⟩
    next hshare => exact ⟨hclamp hshare, hclamp hshare, rfl⟩

theorem Inside.not_agree_of_share (h : c.Inside addr) (hnodes : 2 ≤ c.numNodes.toNat)
    (hfits : c.Fits) (hshare : c.share = 0)
    : ¬ RoutesAgree c addr := by
  intro ⟨node, _, _, _, _, hpreload⟩
  rw [h.preload_eq, if_neg (by simp [hfits]; omega), if_pos hshare] at hpreload
  simp at hpreload

theorem routesAgree_iff (c : Config) (addr : UInt64) (hnodes : 1 ≤ c.numNodes.toNat)
    (h : c.Inside addr)
    : RoutesAgree c addr ↔ c.OnePartition addr := by
  by_cases hfits : c.Fits
  . have hone : c.OnePartition addr
        ↔ c.numNodes.toNat ≤ c.size.toNat ∧ (c.numNodes.toNat = 1 → c.localNodeId = 0) ∧
          c.offset addr < c.numNodes.toNat * c.share :=
      ⟨fun h => h.fits hfits, fun h => ⟨fun _ => h, fun hnot => absurd hfits hnot⟩⟩
    rw [hone]
    have hoff := h.offset_lt
    by_cases hsingle : c.numNodes.toNat = 1
    . have hshare : c.share = c.size.toNat := by
        unfold share
        rw [hsingle, Nat.div_one]
      rw [h.agree_single hsingle hfits, hsingle, hshare, Nat.one_mul]
      constructor
      . intro hlocal
        exact ⟨by omega, fun _ => hlocal, hoff⟩
      . intro hcond
        exact hcond.2.1 rfl
    . by_cases hshare : c.share = 0
      . rw [share_eq_zero_iff hnodes] at hshare
        constructor
        . intro hagree
          apply absurd hagree
          exact h.not_agree_of_share (by omega) hfits ((share_eq_zero_iff hnodes).mpr hshare)
        . intro hcond
          omega
      . rw [h.agree_many (by omega) hfits hshare]
        have hle := (share_eq_zero_iff hnodes).not.mp hshare
        unfold quot
        rw [Nat.div_lt_iff_lt_mul (by omega)]
        constructor
        . intro hlt
          exact ⟨by omega, fun hone => absurd hone hsingle, hlt⟩
        . intro hcond
          exact hcond.2.2
  . rw [h.agree_wrapped hnodes hfits]
    constructor
    . intro hwraps
      exact ⟨fun hnot => absurd hnot hfits, fun _ => hwraps⟩
    . intro hone
      exact hone.wraps hfits

def unevenRegion : Config where
  base := 0x1000
  size := 10
  numNodes := 4
  localNodeId := 0

theorem routesAgree_unevenRegion_third : RoutesAgree unevenRegion 0x1005 := by
  apply (routesAgree_iff unevenRegion 0x1005 (by decide) ⟨by decide, by decide⟩).mpr
  exact ⟨fun _ => by decide, fun hnot => absurd (by decide) hnot⟩

theorem not_routesAgree_unevenRegion_tail
    : unevenRegion.Inside 0x1008 ∧ ¬ RoutesAgree unevenRegion 0x1008 := by
  constructor
  . exact ⟨by decide, by decide⟩
  . intro ⟨node, hattach, _, _, _, hpreload⟩
    rw [← hattach] at hpreload
    exact absurd hpreload (by decide)

end Config

end Bpftime.Pgas
