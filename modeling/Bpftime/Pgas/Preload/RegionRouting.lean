import Bpftime.Pgas.Preload.Regions

namespace Bpftime.Pgas.Preload

def RegionInfo.Covers (r : RegionInfo) (a : UInt64) : Prop :=
  r.baseAddr.toNat ≤ a.toNat ∧ a.toNat < r.baseAddr.toNat + r.size.toNat

def RegionInfo.Fits (r : RegionInfo) : Prop := r.baseAddr.toNat + r.size.toNat < 2 ^ 64

namespace Registry

def Disjoint (reg : Registry) : Prop :=
  ∀ id id' r r' a, reg.region id = some r → reg.region id' = some r' → r.Covers a → r'.Covers a →
    id = id'

structure Routes (reg : Registry) (s : State) : Prop where
  covered : ∀ id r a, reg.region id = some r → r.Covers a → routeToNode s a = some id
  uncovered : ∀ a, (∀ id r, reg.region id = some r → ¬r.Covers a) →
    routeToNode s a = some reg.localNodeId

end Registry

/-- Regions route to their node; without any the static partition is used. -/
def RoutingLaw (c : Config) (ops : List Op) : Prop :=
  ((∃ id, (Registry.run c ops).region id ≠ none) → (Registry.run c ops).Routes (State.run c ops))
    ∧ ((∀ id, (Registry.run c ops).region id = none) →
        ∀ a, routeToNode (State.run c ops) a = routeToNode ⟨c, none⟩ a)

/-- The registrations that the code routes so. -/
structure Routable (c : Config) (reg : Registry) : Prop where
  regions : ∀ id r, reg.region id = some r → r.size ≠ 0 →
    id = reg.localNodeId ∨ (r.Fits ∧ ∃ id', id' ≠ id ∧ reg.region id' ≠ none)
  static : (∀ id, reg.region id = none) → reg.used = true →
    reg.localNodeId = c.localNodeId ∧ (c.numNodes.toNat ≤ 1 ∨ c.size = 0 ∨ ¬c.Fits)

section Route

variable {s : State} {r : RegionInfo} {a : UInt64} {regions : List RegionInfo}

theorem RegionInfo.covers_of_contains (h : r.contains a = true) : r.Covers a := by
  have hsize := r.size.toNat_lt
  have ha := a.toNat_lt
  unfold RegionInfo.contains at h
  simp only [Bool.and_eq_true, decide_eq_true_eq, UInt64.le_iff_toNat_le, UInt64.lt_iff_toNat_lt,
    UInt64.toNat_add] at h
  unfold Covers
  omega

theorem RegionInfo.contains_iff (hcovers : r.Covers a) : r.contains a = true ↔ r.Fits := by
  have hsize := r.size.toNat_lt
  have ha := a.toNat_lt
  unfold Covers at hcovers
  unfold RegionInfo.contains Fits
  simp only [Bool.and_eq_true, decide_eq_true_eq, UInt64.le_iff_toNat_le, UInt64.lt_iff_toNat_lt,
    UInt64.toNat_add]
  omega

theorem RegionInfo.covers_base (h : r.size ≠ 0) : r.Covers r.baseAddr := by
  have hpos : r.size.toNat ≠ 0 := fun hzero => h (UInt64.toNat_inj.mp hzero)
  unfold Covers
  omega

theorem routeToNode_of_le_one (h : s.config.numNodes.toNat ≤ 1)
    : routeToNode s a = some s.config.localNodeId := by
  unfold routeToNode
  rw [if_pos (Config.numNodes_le_one_iff.mpr h)]

theorem routeToNode_of_regions (hregions : s.regions = some regions)
    (hnodes : 2 ≤ s.config.numNodes.toNat)
    : routeToNode s a
        =
      match regions.find? fun r => r.contains a with
      | some r => some r.nodeId
      | none => some s.config.localNodeId := by
  have hle : ¬s.config.numNodes ≤ 1 := by
    rw [Config.numNodes_le_one_iff]
    omega
  unfold routeToNode isPgasAddr
  rw [if_neg hle, hregions]
  dsimp only
  split
  . rfl
  next hany =>
    have hnone : (regions.find? fun r => r.contains a) = none := by
      rw [List.find?_eq_none]
      intro r hr hcontains
      exact hany (List.any_eq_true.mpr ⟨r, hr, hcontains⟩)
    rw [hnone]

end Route

namespace Refines

variable {c : Config} {s : State} {reg : Registry} {id : UInt16} {r : RegionInfo} {a : UInt64}

theorem mem_of_region (h : Refines c s reg) (hr : reg.region id = some r)
    : r ∈ s.regions.getD [] := by
  rw [h.mem, h.named id r hr, hr]

theorem regions_eq (h : Refines c s reg) (hr : reg.region id = some r)
    : s.regions = some (s.regions.getD []) := by
  have hmem := h.mem_of_region hr
  cases hregions : s.regions with
  | some regions => rfl
  | none =>
    rw [hregions] at hmem
    cases hmem

theorem numNodes_eq (h : Refines c s reg) (hr : reg.region id = some r)
    : s.config.numNodes.toNat = (s.regions.getD []).length :=
  h.numNodes (h.used_of_mem (h.mem_of_region hr))

theorem several_iff (h : Refines c s reg) (hr : reg.region id = some r)
    : (∃ id', id' ≠ id ∧ reg.region id' ≠ none) ↔ 2 ≤ s.config.numNodes.toNat := by
  have hmem := h.mem_of_region hr
  have hids := h.ids
  have hname := h.named id r hr
  rw [h.numNodes_eq hr]
  constructor
  . rintro ⟨id', hne, hid'⟩
    rcases Option.ne_none_iff_exists'.mp hid' with ⟨r', hr'⟩
    have hmem' := h.mem_of_region hr'
    have hname' := h.named id' r' hr'
    by_contra hlength
    rcases List.length_eq_one_iff.mp (Nat.le_antisymm (by omega) (List.length_pos_of_mem hmem))
      with ⟨only, honly⟩
    rw [honly, List.mem_singleton] at hmem hmem'
    rw [← hname, ← hname', hmem, hmem'] at hne
    exact hne rfl
  . intro hlength
    match hregions : s.regions.getD [] with
    | [] | [_] => simp [hregions] at hlength
    | r₁ :: r₂ :: rest =>
      have hfirst := (h.mem r₁).mp (by simp [hregions])
      have hsecond := (h.mem r₂).mp (by simp [hregions])
      have hdistinct : r₁.nodeId ≠ r₂.nodeId := by
        intro heq
        rw [hregions] at hids
        simp [heq] at hids
      by_cases heq : r₁.nodeId = id
      . exact ⟨r₂.nodeId, fun heq' => hdistinct (heq.trans heq'.symm), by simp [hsecond]⟩
      . exact ⟨r₁.nodeId, heq, by simp [hfirst]⟩

theorem found_eq (h : Refines c s reg) (hdisjoint : reg.Disjoint) (hr : reg.region id = some r)
    (hcovers : r.Covers a) {found : RegionInfo}
    (hfound : (s.regions.getD []).find? (fun r => r.contains a) = some found)
    : found.nodeId = id := by
  have hmem := List.mem_of_find?_eq_some hfound
  have hcontains := List.find?_some hfound
  exact hdisjoint _ _ _ _ a ((h.mem found).mp hmem) hr
    (RegionInfo.covers_of_contains hcontains) hcovers

theorem route_covered_iff (h : Refines c s reg) (hdisjoint : reg.Disjoint)
    (hr : reg.region id = some r) (hcovers : r.Covers a)
    : routeToNode s a = some id
        ↔ id = reg.localNodeId ∨ (r.Fits ∧ ∃ id', id' ≠ id ∧ reg.region id' ≠ none) := by
  rw [h.several_iff hr, ← RegionInfo.contains_iff hcovers]
  by_cases hnodes : 2 ≤ s.config.numNodes.toNat
  . rw [routeToNode_of_regions (h.regions_eq hr) hnodes]
    cases hfound : (s.regions.getD []).find? (fun r => r.contains a) with
    | some found =>
      have hid := h.found_eq hdisjoint hr hcovers hfound
      have heq : found = r := by
        have hfoundMem := (h.mem found).mp (List.mem_of_find?_eq_some hfound)
        rw [hid, hr] at hfoundMem
        exact (Option.some.inj hfoundMem).symm
      have hcontains := List.find?_some hfound
      rw [heq] at hcontains
      simp [hid, hcontains, hnodes]
    | none =>
      have hcontains := List.find?_eq_none.mp hfound r (h.mem_of_region hr)
      dsimp only
      rw [h.localNode, Option.some_inj, eq_comm]
      simp [hcontains]
  . rw [routeToNode_of_le_one (by omega), h.localNode, Option.some_inj, eq_comm]
    simp [hnodes]

theorem route_uncovered (h : Refines c s reg) (hr : reg.region id = some r)
    (hnone : ∀ id r, reg.region id = some r → ¬r.Covers a)
    : routeToNode s a = some reg.localNodeId := by
  by_cases hnodes : 2 ≤ s.config.numNodes.toNat
  . have hfound : (s.regions.getD []).find? (fun r => r.contains a) = none := by
      rw [List.find?_eq_none]
      intro r' hr' hcontains
      exact hnone _ _ ((h.mem r').mp hr') (RegionInfo.covers_of_contains hcontains)
    rw [routeToNode_of_regions (h.regions_eq hr) hnodes, hfound, h.localNode]
  . rw [routeToNode_of_le_one (by omega), h.localNode]

theorem routes_iff (h : Refines c s reg) (hdisjoint : reg.Disjoint) (hr : reg.region id = some r)
    : reg.Routes s
        ↔
      ∀ id r, reg.region id = some r → r.size ≠ 0 →
        id = reg.localNodeId ∨ (r.Fits ∧ ∃ id', id' ≠ id ∧ reg.region id' ≠ none) := by
  constructor
  . intro hroutes id r hr hsize
    have hcovers := RegionInfo.covers_base hsize
    rw [← h.route_covered_iff hdisjoint hr hcovers]
    exact hroutes.covered id r _ hr hcovers
  . intro hcond
    constructor
    . intro id r a hr hcovers
      have hsize : r.size ≠ 0 := by
        intro hzero
        unfold RegionInfo.Covers at hcovers
        rw [hzero] at hcovers
        simp only [UInt64.toNat_zero] at hcovers
        omega
      rw [h.route_covered_iff hdisjoint hr hcovers]
      exact hcond id r hr hsize
    . intro a hnone
      exact h.route_uncovered hr hnone

end Refines

section Static

variable {c : Config}

theorem routeToNode_of_outside {a : UInt64} (h : ¬(c.base ≤ a ∧ a < c.base + c.size))
    : routeToNode ⟨c, none⟩ a = some c.localNodeId := by
  have hpgas : isPgasAddr ⟨c, none⟩ a = false := by
    rw [← Bool.not_eq_true]
    intro hpgas
    unfold isPgasAddr at hpgas
    simp only [Bool.and_eq_true, decide_eq_true_eq] at hpgas
    exact h hpgas
  unfold routeToNode
  rw [hpgas]
  simp

theorem not_const_of_fits (hnodes : 2 ≤ c.numNodes.toNat) (hsize : c.size ≠ 0) (hfits : c.Fits)
    (node : UInt16)
    : ¬∀ a, routeToNode ⟨c, none⟩ a = some node := by
  intro hconst
  have hpos : c.size.toNat ≠ 0 := fun hzero => hsize (UInt64.toNat_inj.mp hzero)
  have hlt := c.numNodes.toNat_lt
  have hbound : ¬(c.numNodes.toNat ≤ 1 ∨ ¬c.Fits) := by
    rw [not_or, not_not]
    exact ⟨by omega, hfits⟩
  unfold Config.Fits at hfits
  have hfirst : c.Inside c.base := ⟨Nat.le_refl _, by omega⟩
  have hroute := hconst c.base
  rw [hfirst.preload_eq, if_neg hbound] at hroute
  by_cases hshare : c.share = 0
  . rw [if_pos hshare] at hroute
    cases hroute
  . have hmul : c.numNodes.toNat * c.share ≤ c.size.toNat := by
      exact Nat.mul_div_le _ _
    have hdouble : 2 * c.share ≤ c.numNodes.toNat * c.share := Nat.mul_le_mul_right _ hnodes
    have haddr : (c.base + UInt64.ofNat c.share).toNat = c.base.toNat + c.share := by
      rw [UInt64.toNat_add, UInt64.toNat_ofNat_of_lt' (by change c.share < 2 ^ 64; omega)]
      exact Nat.mod_eq_of_lt (by omega)
    have hsecond : c.Inside (c.base + UInt64.ofNat c.share) := by
      unfold Config.Inside
      rw [haddr]
      omega
    have hroute' := hconst (c.base + UInt64.ofNat c.share)
    rw [hsecond.preload_eq, if_neg hbound, if_neg hshare] at hroute'
    rw [if_neg hshare] at hroute
    have hquot : c.quot c.base = 0 := by
      unfold Config.quot Config.offset
      rw [Nat.sub_self, Nat.zero_div]
    have hquot' : c.quot (c.base + UInt64.ofNat c.share) = 1 := by
      unfold Config.quot Config.offset
      rw [haddr, Nat.add_sub_cancel_left, Nat.div_self (by omega)]
    have heq := congrArg UInt16.toNat (Option.some.inj (hroute.trans hroute'.symm))
    have hone : 1 % 2 ^ 16 % c.numNodes.toNat = 1 := Nat.mod_eq_of_lt (by omega)
    rw [hquot, hquot', hone, Nat.zero_mod, Nat.zero_mod] at heq
    exact absurd heq (by decide)

theorem static_const_iff (node : UInt16) : (∀ a, routeToNode ⟨c, none⟩ a = some node)
        ↔ node = c.localNodeId ∧ (c.numNodes.toNat ≤ 1 ∨ c.size = 0 ∨ ¬c.Fits) := by
  have hsize := c.size.toNat_lt
  have hwrap : c.size = 0 ∨ ¬c.Fits → ∀ a, ¬(c.base ≤ a ∧ a < c.base + c.size) := by
    intro hwrap a
    have ha := a.toNat_lt
    unfold Config.Fits at hwrap
    rw [← UInt64.toNat_inj] at hwrap
    rw [UInt64.le_iff_toNat_le, UInt64.lt_iff_toNat_lt, UInt64.toNat_add]
    simp only [UInt64.toNat_zero] at hwrap
    omega
  constructor
  . intro hconst
    have hcond : c.numNodes.toNat ≤ 1 ∨ c.size = 0 ∨ ¬c.Fits := by
      by_contra hcond
      rw [not_or, not_or, not_not] at hcond
      exact not_const_of_fits (by omega) hcond.2.1 hcond.2.2 node hconst
    refine ⟨?_, hcond⟩
    have hroute := hconst 0
    rcases hcond with hnodes | hwrap'
    . rw [routeToNode_of_le_one hnodes] at hroute
      exact (Option.some.inj hroute).symm
    . rw [routeToNode_of_outside (hwrap hwrap' 0)] at hroute
      exact (Option.some.inj hroute).symm
  . rintro ⟨rfl, hnodes | hwrap'⟩ a
    . exact routeToNode_of_le_one hnodes
    . exact routeToNode_of_outside (hwrap hwrap' a)

end Static

theorem routingLaw_iff (c : Config) (ops : List Op)
    (hnodes : ∀ before, before <+: ops → (Registry.run c before).AtMost maxPgasRegions)
    (hdisjoint : (Registry.run c ops).Disjoint)
    : RoutingLaw c ops ↔ Routable c (Registry.run c ops) := by
  have h := Refines.run c ops hnodes
  unfold RoutingLaw
  generalize State.run c ops = s at h ⊢
  generalize Registry.run c ops = reg at h hdisjoint ⊢
  by_cases hempty : ∀ id, reg.region id = none
  . have hsome : ¬∃ id, reg.region id ≠ none := by simpa using hempty
    have hregions : s.regions.getD [] = [] := by
      rw [List.eq_nil_iff_forall_not_mem]
      intro r hr
      have hregion := (h.mem r).mp hr
      rw [hempty] at hregion
      cases hregion
    cases hused : reg.used with
    | false =>
      rw [h.unused hused]
      constructor
      . intro _
        constructor
        . intro id r hr
          rw [hempty] at hr
          cases hr
        . intro _ hused'
          rw [hused] at hused'
          cases hused'
      . intro _
        exact ⟨fun hid => absurd hid hsome, fun _ _ => rfl⟩
    | true =>
      have hzero : s.config.numNodes.toNat ≤ 1 := by
        rw [h.numNodes hused, hregions]
        exact Nat.zero_le _
      have hroute (a : UInt64) : routeToNode s a = some reg.localNodeId := by
        rw [routeToNode_of_le_one hzero, h.localNode]
      simp only [hroute, eq_comm (a := some reg.localNodeId)]
      rw [static_const_iff]
      constructor
      . rintro ⟨-, hstatic⟩
        constructor
        . intro id r hr
          rw [hempty] at hr
          cases hr
        . intro _ _
          exact hstatic hempty
      . rintro ⟨-, hstatic⟩
        exact ⟨fun hid => absurd hid hsome, fun _ => hstatic hempty hused⟩
  . have hsome : ∃ id, reg.region id ≠ none := by simpa using hempty
    rcases hsome with ⟨id, hid⟩
    rcases Option.ne_none_iff_exists'.mp hid with ⟨r, hr⟩
    constructor
    . rintro ⟨hroutes, -⟩
      constructor
      . exact (h.routes_iff hdisjoint hr).mp (hroutes ⟨id, hid⟩)
      . intro hnone
        exact absurd hnone hempty
    . intro hcond
      exact ⟨fun _ => (h.routes_iff hdisjoint hr).mpr hcond.regions,
        fun hnone => absurd hnone hempty⟩

theorem atMost_of_nodes (c : Config) (nodes : List UInt16) {ops : List Op}
    (hlength : nodes.length ≤ maxPgasRegions)
    (hops : ∀ r, .register (some r) ∈ ops → r.nodeId ∈ nodes)
    : ∀ before, before <+: ops → (Registry.run c before).AtMost maxPgasRegions := by
  intro before hbefore
  refine ⟨nodes, hlength, ?_⟩
  have hmem : ∀ r, .register (some r) ∈ before → r.nodeId ∈ nodes :=
    fun r hr => hops r (hbefore.subset hr)
  clear hbefore hops
  induction before using List.reverseRecOn with
  | nil =>
    intro id hid
    exact absurd rfl hid
  | append_singleton before op ih =>
    have h := ih fun r hr => hmem r (List.mem_append_left _ hr)
    intro id hid
    unfold Registry.run at h hid
    rw [List.foldl_append] at hid
    match op, hmem, hid with
    | .register none, _, hid => exact h id hid
    | .register (some r), hmem, hid =>
      by_cases heq : id = r.nodeId
      . rw [heq]
        exact hmem r (by simp)
      . apply h
        simpa [Registry.step, Function.update_apply, heq] using hid
    | .unregister nodeId, _, hid =>
      apply h
      by_cases heq : id = nodeId
      . simp [Registry.step, heq] at hid
      . simpa [Registry.step, Function.update_apply, heq] using hid

def fourNodes : Config where
  base := 0
  size := 4096
  numNodes := 4
  localNodeId := 0

def regionOf (nodeId : UInt16) (base : UInt64) : RegionArg where
  baseAddr := base
  size := 4096
  nodeId
  isLocal := false

def twoRegions : List Op := [.register (some (regionOf 0 0)), .register (some (regionOf 1 4096))]

theorem atMost_twoRegions
    : ∀ before, before <+: twoRegions → (Registry.run fourNodes before).AtMost maxPgasRegions := by
  apply atMost_of_nodes fourNodes [0, 1]
  . decide
  . simp [twoRegions, regionOf]

theorem region_twoRegions {id : UInt16} {r : RegionInfo}
    (h : (Registry.run fourNodes twoRegions).region id = some r)
    : r = (regionOf id (if id = 0 then 0 else 4096)).toRegionInfo ∧ (id = 0 ∨ id = 1) := by
  change Function.update (Function.update (fun _ => none) 0 (some (regionOf 0 0).toRegionInfo)) 1
    (some (regionOf 1 4096).toRegionInfo) id = some r at h
  rw [Function.update_apply, Function.update_apply] at h
  split at h
  next hone =>
    cases h
    subst hone
    exact ⟨rfl, Or.inr rfl⟩
  . split at h
    next hzero =>
      cases h
      subst hzero
      exact ⟨rfl, Or.inl rfl⟩
    . cases h

theorem disjoint_twoRegions : (Registry.run fourNodes twoRegions).Disjoint := by
  intro id id' r r' a h h' hcovers hcovers'
  rcases region_twoRegions h with ⟨rfl, rfl | rfl⟩ <;>
    rcases region_twoRegions h' with ⟨rfl, rfl | rfl⟩ <;>
    simp [RegionInfo.Covers, regionOf] at hcovers hcovers' ⊢ <;> omega

theorem routingLaw_twoRegions : RoutingLaw fourNodes twoRegions := by
  apply (routingLaw_iff fourNodes twoRegions atMost_twoRegions disjoint_twoRegions).mpr
  constructor
  . intro id r hr _
    rcases region_twoRegions hr with ⟨rfl, rfl | rfl⟩
    . exact Or.inl rfl
    . exact Or.inr ⟨by unfold RegionInfo.Fits; decide, 0, by decide, Option.some_ne_none _⟩
  . intro hnone
    exact absurd (hnone 0) (Option.some_ne_none _)

def oneRegion : List Op := [.register (some (regionOf 1 0))]

theorem not_routingLaw_oneRegion
    : ¬RoutingLaw fourNodes oneRegion ∧ ¬RoutingLaw fourNodes (oneRegion ++ [.unregister 1]) := by
  constructor
  . rintro ⟨hroutes, -⟩
    have hcovers : (regionOf 1 0).Covers 0 := RegionInfo.covers_base (by decide)
    have hroute := (hroutes ⟨1, Option.some_ne_none _⟩).covered 1 _ 0 rfl hcovers
    revert hroute
    decide
  . rintro ⟨-, hstatic⟩
    have hnone (id : UInt16)
        : (Registry.run fourNodes (oneRegion ++ [.unregister 1])).region id = none := by
      change Function.update (Function.update (fun _ => none) 1
        (some (regionOf 1 0).toRegionInfo)) 1 none id = none
      rw [Function.update_idem, Function.update_apply, ite_self]
    have hroute := hstatic hnone 1024
    revert hroute
    decide

end Bpftime.Pgas.Preload
