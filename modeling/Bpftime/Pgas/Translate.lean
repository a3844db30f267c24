import Bpftime.Data.Shares
import Bpftime.Pgas.Agreement
import Mathlib.Data.Set.Function

namespace Bpftime.Pgas

namespace Hooker

variable {c : Config} {addr : UInt64} {node : UInt16}

def place (c : Config) (addr : UInt64) : UInt16 × UInt64 :=
  (addrToNode c addr, translateAddr c true addr (addrToNode c addr))

def receivedOffsets (c : Config) (node : UInt16) : Set UInt64 :=
  {o | ∃ addr, isPgasAddr c addr = true ∧ place c addr = (node, o)}

theorem isPgasAddr_iff (hfits : c.Fits) : isPgasAddr c addr = true ↔ c.Inside addr := by
  unfold isPgasAddr Config.Inside
  unfold Config.Fits at hfits
  rw [Bool.and_eq_true, decide_eq_true_iff, decide_eq_true_iff]
  rw [UInt64.le_iff_toNat_le, UInt64.lt_iff_toNat_lt, UInt64.toNat_add, Nat.mod_eq_of_lt hfits]

section Partition

variable (hnodes : 1 ≤ c.numNodes.toNat) (hsize : c.numNodes.toNat ≤ c.size.toNat)
  (hfits : c.Fits)

include hnodes hsize hfits

theorem toNat_addrToNode (h : c.Inside addr)
    : (addrToNode c addr).toNat = Shares.owner c.size.toNat c.numNodes.toNat (c.offset addr) := by
  have hshare : c.share ≠ 0 := by
    rw [ne_eq, Config.share_eq_zero_iff hnodes]
    omega
  rw [h.hooker_eq hnodes, if_neg (by simp [hfits, hshare]), Config.toNat_clamp hnodes]
  rfl

theorem toNat_translateAddr (h : c.Inside addr) (hnode : node.toNat < c.numNodes.toNat)
    (hle : Shares.start c.size.toNat c.numNodes.toNat node.toNat ≤ c.offset addr)
    : (translateAddr c true addr node).toNat
        =
      c.offset addr - Shares.start c.size.toNat c.numNodes.toNat node.toNat := by
  have hin := (isPgasAddr_iff hfits).mpr h
  have hnodes' : c.numNodes ≠ 0 := by
    intro heq
    rw [heq] at hnodes
    simp at hnodes
  have hlt : ¬ c.numNodes ≤ node := by
    rw [UInt16.le_iff_toNat_le]
    omega
  have hregion : c.size / c.numNodes.toUInt64 ≠ 0 := by
    rw [ne_eq, Config.region_eq_zero_iff, Config.share_eq_zero_iff hnodes]
    omega
  -- the base of the node is not larger than the offset, so the product does not wrap
  have hbase : (node.toUInt64 * (c.size / c.numNodes.toUInt64)).toNat
      = Shares.start c.size.toNat c.numNodes.toNat node.toNat := by
    have hoff := h.offset_lt
    have hword := c.size.toNat_lt
    rw [UInt64.toNat_mul, Config.toNat_region, UInt16.toNat_toUInt64]
    apply Nat.mod_eq_of_lt
    unfold Shares.start at hle
    unfold Config.share
    omega
  have hbase_le : ¬ addr - c.base < node.toUInt64 * (c.size / c.numNodes.toUInt64) := by
    rw [UInt64.lt_iff_toNat_lt, hbase, h.toNat_sub]
    omega
  unfold translateAddr
  simp only [hin, hnodes', h.size_ne, hlt, hregion, hbase_le, not_true_eq_false, or_self, ↓reduceIte]
  rw [UInt64.toNat_sub_of_le, hbase, h.toNat_sub]
  rw [UInt64.le_iff_toNat_le, hbase, h.toNat_sub]
  exact hle

theorem start_add_place (h : c.Inside addr)
    : Shares.start c.size.toNat c.numNodes.toNat (place c addr).1.toNat + (place c addr).2.toNat
        =
      c.offset addr := by
  have hnode := toNat_addrToNode hnodes hsize hfits h
  have hle : Shares.start c.size.toNat c.numNodes.toNat (addrToNode c addr).toNat
      ≤ c.offset addr := by
    rw [hnode]
    exact Shares.start_owner_le
  have hlt : (addrToNode c addr).toNat < c.numNodes.toNat := by
    rw [hnode]
    exact Shares.owner_lt hnodes
  unfold place
  dsimp only
  rw [toNat_translateAddr hnodes hsize hfits h hlt hle]
  omega

theorem injOn_place : Set.InjOn (place c) {addr | isPgasAddr c addr = true} := by
  intro a ha b hb heq
  have hin := (isPgasAddr_iff hfits).mp ha
  have hin' := (isPgasAddr_iff hfits).mp hb
  have hoff := start_add_place hnodes hsize hfits hin
  have hoff' := start_add_place hnodes hsize hfits hin'
  rw [heq] at hoff
  rw [← UInt64.toNat_inj]
  unfold Config.Inside at hin hin'
  unfold Config.offset at hoff hoff'
  omega

theorem receivedOffsets_eq (hnode : node.toNat < c.numNodes.toNat) : receivedOffsets c node
        =
      {o | o.toNat < Shares.width c.size.toNat c.numNodes.toNat node.toNat} := by
  ext o
  constructor
  . intro ⟨addr, hin, heq⟩
    have h := (isPgasAddr_iff hfits).mp hin
    have hoff := start_add_place hnodes hsize hfits h
    have howner := toNat_addrToNode hnodes hsize hfits h
    have hlt := Shares.sub_start_lt_width hnodes hsize h.offset_lt
    rw [← howner, ← hoff] at hlt
    have hnode : addrToNode c addr = node := congrArg Prod.fst heq
    rw [heq, hnode] at hlt
    dsimp only at hlt
    rw [Nat.add_sub_cancel_left] at hlt
    exact hlt
  . intro ho
    have hlt := Shares.start_add_lt hnodes hnode ho
    have howner := Shares.owner_start_add hnodes hsize hnode ho
    generalize hoff : Shares.start c.size.toNat c.numNodes.toNat node.toNat + o.toNat = off
      at hlt howner
    have haddr : (UInt64.ofNat (c.base.toNat + off)).toNat = c.base.toNat + off := by
      unfold Config.Fits at hfits
      rw [UInt64.toNat_ofNat']
      apply Nat.mod_eq_of_lt
      omega
    have hin : c.Inside (UInt64.ofNat (c.base.toNat + off)) := by
      unfold Config.Inside
      omega
    have hoffset : c.offset (UInt64.ofNat (c.base.toNat + off)) = off := by
      unfold Config.offset
      omega
    have hnode' : addrToNode c (UInt64.ofNat (c.base.toNat + off)) = node := by
      rw [← UInt16.toNat_inj, toNat_addrToNode hnodes hsize hfits hin, hoffset]
      exact howner
    have hplace := start_add_place hnodes hsize hfits hin
    refine ⟨_, (isPgasAddr_iff hfits).mpr hin, ?_⟩
    apply Prod.ext
    . exact hnode'
    . rw [← UInt64.toNat_inj]
      rw [hoffset] at hplace
      have hfst : (place c (UInt64.ofNat (c.base.toNat + off))).1 = node := hnode'
      rw [hfst] at hplace
      dsimp only
      omega

theorem place_partition : Set.InjOn (place c) {addr | isPgasAddr c addr = true}
      ∧ (∀ node : UInt16, node.toNat < c.numNodes.toNat - 1 →
          receivedOffsets c node = {o | o.toNat < c.size.toNat / c.numNodes.toNat})
      ∧ (∀ node : UInt16, node.toNat = c.numNodes.toNat - 1 →
          receivedOffsets c node
            =
          {o | o.toNat < c.size.toNat / c.numNodes.toNat + c.size.toNat % c.numNodes.toNat}) := by
  refine ⟨injOn_place hnodes hsize hfits, ?_, ?_⟩
  . intro node hnode
    rw [receivedOffsets_eq hnodes hsize hfits (by omega)]
    unfold Shares.width
    rw [if_neg (by omega)]
  . intro node hnode
    rw [receivedOffsets_eq hnodes hsize hfits (by omega)]
    unfold Shares.width
    rw [if_pos (by omega)]

end Partition

theorem place_partition_unevenRegion
    : Set.InjOn (place Config.unevenRegion) {addr | isPgasAddr Config.unevenRegion addr = true}
      ∧ receivedOffsets Config.unevenRegion 1 = {o | o.toNat < 2}
      ∧ receivedOffsets Config.unevenRegion 3 = {o | o.toNat < 4} := by
  have h := @place_partition Config.unevenRegion (by decide) (by decide) (by decide)
  exact ⟨h.1, h.2.1 1 (by decide), h.2.2 3 (by decide)⟩

end Hooker

end Bpftime.Pgas
