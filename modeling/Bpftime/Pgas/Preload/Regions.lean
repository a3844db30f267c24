import Mathlib.Data.List.Induction
import Mathlib.Data.List.Nodup
import Mathlib.Data.List.Perm.Subperm
import Bpftime.Pgas.Agreement

namespace Bpftime.Pgas.Preload

structure RegionArg extends RegionInfo where
  isLocal : Bool

def maxPgasRegions : ℕ := 16

def updateRegion (region : RegionInfo) : List RegionInfo → Option (List RegionInfo)
  | [] => none
  | r :: regions =>
    if r.nodeId = region.nodeId then
      some (region :: regions)
    else
      (updateRegion region regions).map (r :: ·)

def removeRegion (nodeId : UInt16) : List RegionInfo → Option (List RegionInfo)
  | [] => none
  | r :: regions =>
    if r.nodeId = nodeId then
      some regions
    else
      (removeRegion nodeId regions).map (r :: ·)

namespace State

def setLocal (s : State) (region : RegionArg) : State :=
  if region.isLocal then { s with config.localNodeId := region.nodeId } else s

def pgasRegisterRegion (s : State) (region : Option RegionArg) : State :=
  match region with
  | none => s
  | some region =>
    let regions := s.regions.getD []
    match updateRegion region.toRegionInfo regions with
    | some regions => { s.setLocal region with regions := some regions }
    | none =>
      if regions.length < maxPgasRegions then
        let regions := regions ++ [region.toRegionInfo]
        { config := { (s.setLocal region).config with numNodes := .ofNat regions.length }
          regions := some regions }
      else
        s

def pgasUnregisterRegion (s : State) (nodeId : UInt16) : State :=
  match removeRegion nodeId (s.regions.getD []) with
  | none => s
  | some regions =>
    { config := { s.config with numNodes := .ofNat regions.length }
      regions := if regions.length = 0 then none else some regions }

end State

inductive Op where
  | register (region : Option RegionArg)
  | unregister (nodeId : UInt16)

def State.step (s : State) : Op → State
  | .register region => s.pgasRegisterRegion region
  | .unregister nodeId => s.pgasUnregisterRegion nodeId

def State.run (c : Config) (ops : List Op) : State := ops.foldl State.step ⟨c, none⟩

structure Registry where
  region : UInt16 → Option RegionInfo
  localNodeId : UInt16
  /-- Something has been registered at some time. -/
  used : Bool

namespace Registry

def step (reg : Registry) : Op → Registry
  | .register none => reg
  | .register (some r) =>
    { region := Function.update reg.region r.nodeId (some r.toRegionInfo)
      localNodeId := if r.isLocal then r.nodeId else reg.localNodeId
      used := true }
  | .unregister nodeId => { reg with region := Function.update reg.region nodeId none }

def run (c : Config) (ops : List Op) : Registry :=
  ops.foldl step ⟨fun _ => none, c.localNodeId, false⟩

def AtMost (reg : Registry) (n : ℕ) : Prop :=
  ∃ nodes : List UInt16, nodes.length ≤ n ∧ ∀ id, reg.region id ≠ none → id ∈ nodes

end Registry

section Lists

variable {region : RegionInfo} {nodeId : UInt16} {regions regions' : List RegionInfo}

/-- The first region of the node is replaced by `new`. -/
structure Replaces (nodeId : UInt16) (new : List RegionInfo)
    (f : List RegionInfo → Option (List RegionInfo)) : Prop where
  nil : f [] = none
  cons : ∀ r regions, f (r :: regions)
    = if r.nodeId = nodeId then some (new ++ regions) else (f regions).map (r :: ·)

theorem replaces_updateRegion : Replaces region.nodeId [region] (updateRegion region) :=
  ⟨rfl, fun _ _ => rfl⟩

theorem replaces_removeRegion : Replaces nodeId [] (removeRegion nodeId) := ⟨rfl, fun _ _ => rfl⟩

section Replaces

variable {new : List RegionInfo} {f : List RegionInfo → Option (List RegionInfo)}
  (hf : Replaces nodeId new f)

include hf

theorem Replaces.eq_none (h : f regions = none) : ∀ r ∈ regions, r.nodeId ≠ nodeId := by
  induction regions with
  | nil => simp
  | cons r regions ih =>
    rw [hf.cons] at h
    split at h
    . cases h
    next hne =>
      rw [Option.map_eq_none_iff] at h
      simpa [hne] using ih h

theorem Replaces.eq_some (h : f regions = some regions')
    : ∃ before r after, regions = before ++ r :: after ∧ r.nodeId = nodeId
        ∧ regions' = before ++ (new ++ after) := by
  induction regions generalizing regions' with
  | nil =>
    rw [hf.nil] at h
    cases h
  | cons r regions ih =>
    rw [hf.cons] at h
    split at h
    next heq =>
      cases h
      exact ⟨[], r, regions, rfl, heq, rfl⟩
    next =>
      rcases Option.map_eq_some_iff.mp h with ⟨rest, hrest, rfl⟩
      rcases ih hrest with ⟨before, r', after, rfl, hid, rfl⟩
      exact ⟨r :: before, r', after, rfl, hid, rfl⟩

end Replaces

theorem mem_others_iff {before after : List RegionInfo} {r : RegionInfo}
    (hids : ((before ++ r :: after).map RegionInfo.nodeId).Nodup) (x : RegionInfo)
    : x ∈ before ++ after ↔ x ∈ before ++ r :: after ∧ x.nodeId ≠ r.nodeId := by
  rw [(List.perm_middle.map _).nodup_iff, List.map_cons, List.nodup_cons] at hids
  rw [List.perm_middle.mem_iff, List.mem_cons]
  constructor
  . intro hx
    refine ⟨.inr hx, ?_⟩
    intro hid
    exact hids.1 (hid ▸ List.mem_map_of_mem hx)
  . rintro ⟨rfl | hx, hne⟩
    . exact absurd rfl hne
    . exact hx

theorem updateRegion_eq_some (hids : (regions.map RegionInfo.nodeId).Nodup)
    (h : updateRegion region regions = some regions')
    : regions'.map RegionInfo.nodeId = regions.map RegionInfo.nodeId
      ∧ (∃ r ∈ regions, r.nodeId = region.nodeId)
      ∧ ∀ r, r ∈ regions' ↔ r = region ∨ (r ∈ regions ∧ r.nodeId ≠ region.nodeId) := by
  rcases replaces_updateRegion.eq_some h with ⟨before, r, after, rfl, hr, rfl⟩
  refine ⟨by simp [hr], ⟨r, by simp, hr⟩, ?_⟩
  intro x
  rw [← hr, ← mem_others_iff hids]
  exact List.perm_middle.mem_iff.trans List.mem_cons

theorem removeRegion_eq_some (hids : (regions.map RegionInfo.nodeId).Nodup)
    (h : removeRegion nodeId regions = some regions')
    : (regions'.map RegionInfo.nodeId).Nodup ∧ regions'.length + 1 = regions.length
      ∧ ∀ r, r ∈ regions' ↔ r ∈ regions ∧ r.nodeId ≠ nodeId := by
  rcases replaces_removeRegion.eq_some h with ⟨before, r, after, rfl, rfl, rfl⟩
  refine ⟨?_, by simp [Nat.add_assoc], mem_others_iff hids⟩
  exact hids.sublist (((List.sublist_cons_self r after).append_left before).map _)

end Lists

structure Refines (c : Config) (s : State) (reg : Registry) : Prop where
  ids : ((s.regions.getD []).map RegionInfo.nodeId).Nodup
  mem : ∀ r, r ∈ s.regions.getD [] ↔ reg.region r.nodeId = some r
  named : ∀ id r, reg.region id = some r → r.nodeId = id
  localNode : s.config.localNodeId = reg.localNodeId
  nonempty : s.regions ≠ some []
  length_le : (s.regions.getD []).length ≤ maxPgasRegions
  numNodes : reg.used = true → s.config.numNodes.toNat = (s.regions.getD []).length
  unused : reg.used = false → s = ⟨c, none⟩

namespace Refines

variable {c : Config} {s : State} {reg : Registry}

theorem start (c : Config) : Refines c ⟨c, none⟩ ⟨fun _ => none, c.localNodeId, false⟩ where
  ids := List.nodup_nil
  mem := by simp
  named := by simp
  localNode := rfl
  nonempty := by simp
  length_le := Nat.zero_le _
  numNodes := by simp
  unused _ := rfl

theorem used_of_mem (h : Refines c s reg) {r : RegionInfo} (hr : r ∈ s.regions.getD [])
    : reg.used = true := by
  cases hused : reg.used with
  | true => rfl
  | false =>
    rw [h.unused hused] at hr
    cases hr

theorem getD_of_ne {regions : List RegionInfo}
    : (if regions.length = 0 then none else some regions).getD [] = regions := by
  split
  next hzero => exact (List.length_eq_zero_iff.mp hzero).symm
  . rfl

theorem localNode_setLocal (h : Refines c s reg) (region : RegionArg)
    : (s.setLocal region).config.localNodeId
        = if region.isLocal then region.nodeId else reg.localNodeId := by
  unfold State.setLocal
  split
  . rfl
  . exact h.localNode

theorem mem_registered (h : Refines c s reg) {regions : List RegionInfo} {region : RegionInfo}
    (hmem : ∀ r, r ∈ regions ↔ r = region ∨ (r ∈ s.regions.getD [] ∧ r.nodeId ≠ region.nodeId))
    (r : RegionInfo)
    : r ∈ regions ↔ Function.update reg.region region.nodeId (some region) r.nodeId = some r := by
  rw [hmem, h.mem, Function.update_apply]
  split
  next heq =>
    rw [Option.some_inj, eq_comm (a := region)]
    exact or_iff_left fun h => h.2 heq
  next hne =>
    rw [and_iff_left hne]
    apply or_iff_right
    rintro rfl
    exact hne rfl

theorem named_registered (h : Refines c s reg) (region : RegionInfo) (id : UInt16) (r : RegionInfo)
    (hr : Function.update reg.region region.nodeId (some region) id = some r)
    : r.nodeId = id := by
  rw [Function.update_apply] at hr
  split at hr
  next heq =>
    cases hr
    exact heq.symm
  . exact h.named id r hr

theorem length_le_of_atMost {regions : List RegionInfo} {reg : Registry} {n : ℕ}
    (hids : (regions.map RegionInfo.nodeId).Nodup)
    (hmem : ∀ r ∈ regions, reg.region r.nodeId = some r) (hatMost : reg.AtMost n)
    : regions.length ≤ n := by
  rcases hatMost with ⟨nodes, hlength, hnodes⟩
  have hsub : regions.map RegionInfo.nodeId ⊆ nodes := by
    intro id hid
    rcases List.mem_map.mp hid with ⟨r, hr, rfl⟩
    apply hnodes
    rw [hmem r hr]
    simp
  have hle := (List.subperm_of_subset hids hsub).length_le
  rw [List.length_map] at hle
  omega

theorem toNat_numNodes {n : ℕ} (h : n ≤ maxPgasRegions) : (UInt16.ofNat n).toNat = n := by
  unfold maxPgasRegions at h
  rw [UInt16.toNat_ofNat']
  exact Nat.mod_eq_of_lt (by omega)

theorem register_of_some (h : Refines c s reg) {region : RegionArg} {regions : List RegionInfo}
    (hupdate : updateRegion region.toRegionInfo (s.regions.getD []) = some regions)
    : Refines c (s.pgasRegisterRegion (some region)) (reg.step (.register (some region))) := by
  unfold State.pgasRegisterRegion
  dsimp only
  rw [hupdate]
  rcases updateRegion_eq_some h.ids hupdate with ⟨hmap, ⟨r, hr, -⟩, hmem⟩
  have hlength : regions.length = (s.regions.getD []).length := by
    rw [← List.length_map (f := RegionInfo.nodeId), hmap, List.length_map]
  have hnumNodes : (s.setLocal region).config.numNodes = s.config.numNodes := by
    unfold State.setLocal
    split <;> rfl
  constructor
  case ids =>
    change (regions.map RegionInfo.nodeId).Nodup
    rw [hmap]
    exact h.ids
  case mem => exact h.mem_registered hmem
  case named => exact h.named_registered region.toRegionInfo
  case localNode => exact h.localNode_setLocal region
  case nonempty =>
    intro heq
    cases heq
    rw [List.eq_nil_of_length_eq_zero hlength.symm] at hr
    cases hr
  case length_le =>
    change regions.length ≤ _
    rw [hlength]
    exact h.length_le
  case numNodes =>
    intro _
    change (s.setLocal region).config.numNodes.toNat = regions.length
    rw [hnumNodes, hlength]
    exact h.numNodes (h.used_of_mem hr)
  case unused =>
    intro hused
    cases hused

theorem register_of_none (h : Refines c s reg) {region : RegionArg}
    (hupdate : updateRegion region.toRegionInfo (s.regions.getD []) = none)
    (hatMost : (reg.step (.register (some region))).AtMost maxPgasRegions)
    : Refines c (s.pgasRegisterRegion (some region)) (reg.step (.register (some region))) := by
  unfold State.pgasRegisterRegion
  dsimp only
  rw [hupdate]
  have hnew := replaces_updateRegion.eq_none hupdate
  have hmem : ∀ r, r ∈ s.regions.getD [] ++ [region.toRegionInfo] ↔ r = region.toRegionInfo
      ∨ (r ∈ s.regions.getD [] ∧ r.nodeId ≠ region.nodeId) := by
    intro r
    have hne := hnew r
    rw [List.mem_append, List.mem_singleton]
    tauto
  have hids : ((s.regions.getD [] ++ [region.toRegionInfo]).map RegionInfo.nodeId).Nodup := by
    rw [List.map_append, List.map_singleton, ← List.concat_eq_append, List.nodup_concat]
    refine ⟨?_, h.ids⟩
    rw [List.mem_map]
    rintro ⟨r, hr, hid⟩
    exact hnew r hr hid
  have hregistered := h.mem_registered hmem
  have hle := length_le_of_atMost hids (fun r hr => (hregistered r).mp hr) hatMost
  have hlength : (s.regions.getD [] ++ [region.toRegionInfo]).length
      = (s.regions.getD []).length + 1 := by
    rw [List.length_append, List.length_singleton]
  dsimp only
  rw [if_pos (by omega)]
  constructor
  case ids => exact hids
  case mem => exact hregistered
  case named => exact h.named_registered region.toRegionInfo
  case localNode => exact h.localNode_setLocal region
  case nonempty => simp
  case length_le => exact hle
  case numNodes =>
    intro _
    exact toNat_numNodes hle
  case unused =>
    intro hused
    cases hused

theorem register (h : Refines c s reg) (region : RegionArg)
    (hatMost : (reg.step (.register (some region))).AtMost maxPgasRegions)
    : Refines c (s.pgasRegisterRegion (some region)) (reg.step (.register (some region))) := by
  cases hupdate : updateRegion region.toRegionInfo (s.regions.getD []) with
  | some regions => exact h.register_of_some hupdate
  | none => exact h.register_of_none hupdate hatMost

theorem unregister (h : Refines c s reg) (nodeId : UInt16)
    : Refines c (s.pgasUnregisterRegion nodeId) (reg.step (.unregister nodeId)) := by
  unfold State.pgasUnregisterRegion
  cases hremove : removeRegion nodeId (s.regions.getD []) with
  | none =>
    have hnone : reg.region nodeId = none := by
      cases hr : reg.region nodeId with
      | none => rfl
      | some r =>
        have hid := h.named nodeId r hr
        rw [← hid] at hr
        exact absurd hid (replaces_removeRegion.eq_none hremove r ((h.mem r).mpr hr))
    have hstep : reg.step (.unregister nodeId) = reg := by
      change { reg with region := Function.update reg.region nodeId none } = reg
      rw [← hnone, Function.update_eq_self]
    rw [hstep]
    exact h
  | some regions =>
    rcases removeRegion_eq_some h.ids hremove with ⟨hids, hlength, hmem⟩
    have hle := h.length_le
    have hused : reg.used = true := by
      have hpos : 0 < (s.regions.getD []).length := by omega
      rcases List.exists_mem_of_length_pos hpos with ⟨r, hr⟩
      exact h.used_of_mem hr
    constructor
    case ids =>
      dsimp only
      rw [getD_of_ne]
      exact hids
    case mem =>
      intro r
      dsimp only [Registry.step]
      rw [getD_of_ne, hmem, h.mem, Function.update_apply]
      split
      next heq => simp [heq]
      next hne => exact and_iff_left hne
    case named =>
      intro id r hr
      dsimp only [Registry.step] at hr
      rw [Function.update_apply] at hr
      split at hr
      . cases hr
      . exact h.named id r hr
    case localNode => exact h.localNode
    case nonempty =>
      dsimp only
      split
      . simp
      next hne =>
        rw [ne_eq, Option.some_inj]
        rintro rfl
        exact hne rfl
    case length_le =>
      dsimp only
      rw [getD_of_ne]
      omega
    case numNodes =>
      intro _
      dsimp only
      rw [getD_of_ne]
      exact toNat_numNodes (by omega)
    case unused =>
      intro hunused
      exact absurd (hused.symm.trans hunused) (by decide)

theorem run (c : Config) (ops : List Op)
    (hnodes : ∀ before, before <+: ops → (Registry.run c before).AtMost maxPgasRegions)
    : Refines c (State.run c ops) (Registry.run c ops) := by
  induction ops using List.reverseRecOn with
  | nil => exact start c
  | append_singleton ops op ih =>
    have h := ih fun before hbefore => hnodes before (hbefore.trans (List.prefix_append _ _))
    have hstep := hnodes _ (List.prefix_refl _)
    unfold State.run Registry.run at h hstep ⊢
    rw [List.foldl_append] at hstep ⊢
    rw [List.foldl_append]
    match op with
    | .register none => exact h
    | .register (some region) => exact h.register region hstep
    | .unregister nodeId => exact h.unregister nodeId

end Refines

end Bpftime.Pgas.Preload
