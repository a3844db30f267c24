import Bpftime.Pgas.Agreement
import Bpftime.Pgas.Override

namespace Bpftime.Pgas

open WordMem

def CopiesDisjoint (f : CopyFn) : Prop :=
  ∀ m d s n, (∀ i < n.toNat, ∀ j < n.toNat, shift s i ≠ shift d j) →
    f m d s n = put m d (fun i => m (shift s i)) n.toNat

def Copies (f : CopyFn) : Prop :=
  ∀ m d s n, d.toNat + n.toNat ≤ 2 ^ 64 → s.toNat + n.toNat ≤ 2 ^ 64 →
    f m d s n = put m d (fun i => m (shift s i)) n.toNat

theorem Config.attach_remote {c : Config} {addr : UInt64}
    (h : AttachEntry.routeToNode c addr ≠ c.localNodeId)
    : c.Inside addr ∧ c.Fits ∧ 1 ≤ c.numNodes.toNat ∧ c.share ≠ 0 := by
  have hinside : c.Inside addr := by
    unfold AttachEntry.routeToNode at h
    split at h
    next => exact absurd rfl h
    next =>
      split at h
      next => exact absurd rfl h
      next =>
        split at h
        next => exact absurd rfl h
        next hrange =>
          simp only [not_or, UInt64.not_lt, UInt64.not_le] at hrange
          rw [UInt64.le_iff_toNat_le, UInt64.lt_iff_toNat_lt, UInt64.toNat_add] at hrange
          refine ⟨hrange.1, Nat.lt_of_lt_of_le hrange.2 (Nat.mod_le _ _)⟩
  rw [hinside.attach_eq] at h
  split at h
  next => exact absurd rfl h
  next hcond =>
    simp only [not_or, not_not] at hcond
    exact ⟨hinside, hcond.2.1, by omega, hcond.2.2⟩

namespace Hooks

variable {h : Hooks} {link : Link} {m m' : Memory} {dest src n a : UInt64} {i : ℕ}

def IsLocal (h : Hooks) (a : UInt64) : Prop := h.routeToNode a = h.config.localNodeId

instance : Decidable (h.IsLocal a) := inferInstanceAs (Decidable (_ = _))

def held (h : Hooks) (m : Memory) (a : UInt64) : UInt8 :=
  if h.IsLocal a then m.loc a else m.node (h.routeToNode a) (h.translateAddr a (h.routeToNode a))

/-- The range does not wrap around and belongs to one node. -/
structure Within (h : Hooks) (a n : UInt64) : Prop where
  le : a.toNat + n.toNat ≤ 2 ^ 64
  route : ∀ i < n.toNat, h.routeToNode (shift a i) = h.routeToNode a

/-- The owner of `dest` has what the owner of `src` had, and nothing else changed. -/
structure Copied (h : Hooks) (m m' : Memory) (dest src n : UInt64) : Prop where
  bytes : ∀ i < n.toNat, h.held m' (shift dest i) = h.held m (shift src i)
  frameLoc : ∀ x, (h.IsLocal dest → ∀ i < n.toNat, x ≠ shift dest i) → m'.loc x = m.loc x
  frameNode : ∀ k x, (k = h.routeToNode dest → ¬ h.IsLocal dest →
    ∀ i < n.toNat, x ≠ h.translateAddr (shift dest i) k) → m'.node k x = m.node k x

theorem isLocal_congr {a' : UInt64} (hroute : h.routeToNode a' = h.routeToNode a)
    : h.IsLocal a' ↔ h.IsLocal a := by
  unfold IsLocal
  rw [hroute]

theorem translateAddr_remote (hremote : ¬ h.IsLocal a) : h.translateAddr a (h.routeToNode a)
        =
      if h.useNodeLocalOffsets then
        a - h.config.base
          - (h.routeToNode a).toUInt64 * (h.config.size / h.config.numNodes.toUInt64)
      else a := by
  rcases Config.attach_remote hremote with ⟨hinside, hfits, hnodes, hshare⟩
  have hroute : h.routeToNode a = h.config.clamp (h.config.quot a) := by
    unfold IsLocal routeToNode at hremote
    unfold routeToNode
    rw [hinside.attach_eq] at hremote ⊢
    split at hremote
    next => exact absurd rfl hremote
    next hcond => rw [if_neg hcond]
  have hnode : (h.routeToNode a).toNat = min (h.config.quot a) (h.config.numNodes.toNat - 1) := by
    rw [hroute, Config.toNat_clamp hnodes]
  have hpgas : Hooker.isPgasAddr h.config a = true := by
    unfold Hooker.isPgasAddr
    simp [hinside.base_le, hinside.lt_end_iff, hfits]
  have hne : h.config.numNodes ≠ 0 := by
    intro heq
    rw [heq] at hnodes
    simp at hnodes
  have hlt : ¬ h.config.numNodes ≤ h.routeToNode a := by
    rw [UInt16.le_iff_toNat_le, hnode]
    omega
  -- the share of the node starts at or before the address
  have hbase : ¬ a - h.config.base
      < (h.routeToNode a).toUInt64 * (h.config.size / h.config.numNodes.toUInt64) := by
    rw [UInt64.lt_iff_toNat_lt, UInt64.toNat_mul, UInt16.toNat_toUInt64, Config.toNat_region,
      hinside.toNat_sub]
    apply Nat.not_lt_of_le
    apply Nat.le_trans (Nat.mod_le _ _)
    apply Nat.le_trans (Nat.mul_le_mul_right _ (_ : _ ≤ h.config.quot a))
    . exact Nat.div_mul_le_self _ _
    . omega
  unfold translateAddr Hooker.translateAddr
  cases h.useNodeLocalOffsets with
  | false => simp
  | true =>
    simp [hpgas, hne, hinside.size_ne, hlt, hbase, Config.region_eq_zero_iff, hshare]

theorem translateAddr_shift (hremote : ¬ h.IsLocal a)
    (hroute : h.routeToNode (shift a i) = h.routeToNode a)
    : h.translateAddr (shift a i) (h.routeToNode a)
        =
      shift (h.translateAddr a (h.routeToNode a)) i := by
  have htranslate := translateAddr_remote (mt (isLocal_congr hroute).mp hremote)
  rw [hroute] at htranslate
  rw [htranslate, translateAddr_remote hremote]
  split
  next =>
    unfold shift
    grind
  next => rfl

theorem held_shift_local (hroute : h.routeToNode (shift a i) = h.routeToNode a)
    (hlocal : h.IsLocal a)
    : h.held m (shift a i) = m.loc (shift a i) := by
  unfold held
  rw [if_pos ((isLocal_congr hroute).mpr hlocal)]

theorem held_shift_remote (hroute : h.routeToNode (shift a i) = h.routeToNode a)
    (hremote : ¬ h.IsLocal a)
    : h.held m (shift a i)
        =
      m.node (h.routeToNode a) (shift (h.translateAddr a (h.routeToNode a)) i) := by
  unfold held
  rw [if_neg (mt (isLocal_congr hroute).mp hremote), hroute, translateAddr_shift hremote hroute]

section Stored

/-- The memory with the bytes at `dest`, where the owner of `dest` has them. -/
def stored (h : Hooks) (m : Memory) (dest n : UInt64) (bytes : ℕ → UInt8) : Memory :=
  if h.IsLocal dest then
    { m with loc := put m.loc dest bytes n.toNat }
  else
    { m with
      node := Function.update m.node (h.routeToNode dest)
        (put (m.node (h.routeToNode dest)) (h.translateAddr dest (h.routeToNode dest)) bytes
          n.toNat) }

variable {bytes : ℕ → UInt8}

theorem held_stored (hroute : h.routeToNode (shift dest i) = h.routeToNode dest)
    (hi : i < n.toNat)
    : h.held (h.stored m dest n bytes) (shift dest i) = bytes i := by
  unfold stored
  split
  next hlocal =>
    rw [held_shift_local hroute hlocal]
    exact put_shift hi (Nat.le_of_lt n.toNat_lt)
  next hremote =>
    rw [held_shift_remote hroute hremote]
    dsimp only
    rw [Function.update_self]
    exact put_shift hi (Nat.le_of_lt n.toNat_lt)

theorem loc_stored {x : UInt64} (hx : h.IsLocal dest → ∀ i < n.toNat, x ≠ shift dest i)
    : (h.stored m dest n bytes).loc x = m.loc x := by
  unfold stored
  split
  next hlocal => exact put_of_ne (hx hlocal)
  next => rfl

theorem node_stored {k : UInt16} {x : UInt64}
    (hroute : ∀ i < n.toNat, h.routeToNode (shift dest i) = h.routeToNode dest)
    (hx : k = h.routeToNode dest → ¬ h.IsLocal dest →
      ∀ i < n.toNat, x ≠ h.translateAddr (shift dest i) k)
    : (h.stored m dest n bytes).node k x = m.node k x := by
  unfold stored
  split
  next => rfl
  next hremote =>
    dsimp only
    by_cases heq : k = h.routeToNode dest
    . rw [heq, Function.update_self]
      apply put_of_ne
      intro i hi
      rw [← translateAddr_shift hremote (hroute i hi), ← heq]
      exact hx heq hremote i hi
    . rw [Function.update_of_ne heq]

theorem Within.copied_iff (hdest : h.Within dest n)
    : h.Copied m (h.stored m dest n bytes) dest src n
        ↔
      ∀ i < n.toNat, bytes i = h.held m (shift src i) := by
  constructor
  . intro hcopied i hi
    rw [← hcopied.bytes i hi, held_stored (hdest.route i hi) hi]
  . intro hbytes
    constructor
    . intro i hi
      rw [held_stored (hdest.route i hi) hi, hbytes i hi]
    . intro x hx
      exact loc_stored hx
    . intro k x hx
      exact node_stored hdest.route hx

theorem remoteWrite_of_connected (hremote : ¬ h.IsLocal dest)
    (hconnected : link.connected (h.routeToNode dest) = true)
    : h.remoteWrite link m (h.routeToNode dest) dest bytes n = h.stored m dest n bytes := by
  unfold stored
  rw [if_neg hremote]
  unfold IsLocal at hremote
  unfold remoteWrite
  rw [if_neg hremote, if_pos hconnected]

end Stored

theorem forall_loc_eq_held_iff (hsrc : h.Within src n)
    : (∀ m : Memory, ∀ i < n.toNat, m.loc (shift src i) = h.held m (shift src i))
        ↔
      n = 0 ∨ h.IsLocal src := by
  constructor
  . intro hall
    by_cases hlocal : h.IsLocal src
    . exact .inr hlocal
    . left
      rw [← UInt64.toNat_inj]
      apply Nat.eq_zero_of_not_pos
      intro hpos
      have heq := hall ⟨fun _ => 0, fun _ _ => 1⟩ 0 hpos
      rw [held_shift_remote (hsrc.route 0 hpos) hlocal] at heq
      simp at heq
  . intro hor m i hi
    rcases hor with rfl | hlocal
    . simp at hi
    . rw [held_shift_local (hsrc.route i hi) hlocal]

def fetched (h : Hooks) (m : Memory) (dest src : UInt64) (i : ℕ) : UInt8 :=
  if h.IsLocal dest ∧ ¬ h.IsLocal src then
    m.node (h.routeToNode src) (shift (h.translateAddr src (h.routeToNode src)) i)
  else
    m.loc (shift src i)

def CopyReaches (h : Hooks) (link : Link) (dest src : UInt64) : Prop :=
  (¬ h.IsLocal dest → link.connected (h.routeToNode dest) = true) ∧
    (h.IsLocal dest → ¬ h.IsLocal src → link.connected (h.routeToNode src) = true)

theorem memcpy_of_remote_dest (hremote : ¬ h.IsLocal dest)
    : h.pgasMemcpyOverrideHandler link m dest src n
        =
      h.remoteWrite link m (h.routeToNode dest) dest (h.fetched m dest src) n := by
  unfold fetched
  simp only [hremote, false_and, if_false]
  unfold IsLocal at hremote
  unfold pgasMemcpyOverrideHandler
  dsimp only
  rw [if_pos hremote]
  rfl

theorem memcpy_of_reaches (horig : ∀ f ∈ h.origMemcpy, CopiesDisjoint f)
    (hdisjoint : ∀ i < n.toNat, ∀ j < n.toNat, shift src i ≠ shift dest j)
    (hreaches : h.CopyReaches link dest src)
    : h.pgasMemcpyOverrideHandler link m dest src n
        =
      h.stored m dest n (h.fetched m dest src) := by
  by_cases hdest : h.IsLocal dest
  . have hsame := hdest
    unfold stored fetched
    rw [if_pos hdest]
    unfold IsLocal at hsame
    unfold pgasMemcpyOverrideHandler
    dsimp only
    rw [if_neg (not_not_intro hsame)]
    by_cases hsrc : h.IsLocal src
    . have hnear := hsrc
      unfold IsLocal at hnear
      rw [if_neg (not_not_intro hnear)]
      simp only [hsrc, not_true_eq_false, and_false, if_false]
      split
      next f hf => rw [horig f hf m.loc dest src n hdisjoint]
      next =>
        rw [copyUp_eq_put (Nat.le_of_lt n.toNat_lt)]
        intro i hi j hj
        exact hdisjoint i hi j (by omega)
    . have hfar := hsrc
      unfold IsLocal at hfar
      rw [if_pos hfar]
      simp only [hdest, hsrc, not_false_eq_true, and_self, if_true]
      unfold pgasRemoteMemcpyHandler remoteRead
      rw [if_neg (by simp), if_neg hfar, if_pos (hreaches.2 hdest hsrc)]
  . rw [memcpy_of_remote_dest hdest]
    exact remoteWrite_of_connected hdest (hreaches.1 hdest)

theorem Within.fetched_eq (hsrc : h.Within src n) (hlocal : h.IsLocal dest) (hi : i < n.toNat)
    : h.fetched m dest src i = h.held m (shift src i) := by
  unfold fetched
  by_cases hlocal' : h.IsLocal src
  . rw [if_neg (fun hremote => hremote.2 hlocal'), held_shift_local (hsrc.route i hi) hlocal']
  . rw [if_pos ⟨hlocal, hlocal'⟩, held_shift_remote (hsrc.route i hi) hlocal']

theorem copyUp_overlapping (hsrc : src.toNat + n.toNat ≤ 2 ^ 64) (hlt : dest < src) (m : Mem)
    : copyUp m dest src n.toNat = put m dest (fun i => m (shift src i)) n.toNat := by
  rw [UInt64.lt_iff_toNat_lt] at hlt
  apply copyUp_eq_put (Nat.le_of_lt n.toNat_lt)
  intro i hi j hj heq
  have hnat := congrArg UInt64.toNat heq
  rw [toNat_shift (by omega), toNat_shift (by omega)] at hnat
  omega

theorem copyDown_overlapping (hdest : dest.toNat + n.toNat ≤ 2 ^ 64)
    (hsrc : src.toNat + n.toNat ≤ 2 ^ 64) (hle : src ≤ dest) (m : Mem)
    : copyDown m dest src n.toNat = put m dest (fun i => m (shift src i)) n.toNat := by
  rw [UInt64.le_iff_toNat_le] at hle
  apply copyDown_eq_put (Nat.le_of_lt n.toNat_lt)
  intro i hi j hj heq
  have hnat := congrArg UInt64.toNat heq
  rw [toNat_shift (by omega), toNat_shift (by omega)] at hnat
  omega

theorem memmove_of_connected (horig : ∀ f ∈ h.origMemmove, Copies f) (hdest : h.Within dest n)
    (hsrc : h.Within src n) (hlink : ∀ node, link.connected node = true)
    : h.pgasMemmoveOverrideHandler link m dest src n
        =
      h.stored m dest n fun i => m.loc (shift src i) := by
  by_cases hlocal : h.IsLocal dest
  . unfold stored
    rw [if_pos hlocal]
    unfold IsLocal at hlocal
    unfold pgasMemmoveOverrideHandler
    rw [if_neg (by simp [hlocal]), if_neg (by simp [hlocal])]
    split
    next f hf => rw [horig f hf m.loc dest src n hdest.le hsrc.le]
    next =>
      split
      next hlt => rw [copyUp_overlapping hsrc.le hlt]
      next hge => rw [copyDown_overlapping hdest.le hsrc.le (UInt64.not_lt.mp hge)]
  . rw [← remoteWrite_of_connected hlocal (hlink _)]
    unfold IsLocal at hlocal
    unfold pgasMemmoveOverrideHandler
    rw [if_pos (by simp [hlocal])]
    rfl

section Connected

variable (hlink : ∀ node, link.connected node = true)

include hlink

theorem memcpy_copied_iff (horig : ∀ f ∈ h.origMemcpy, CopiesDisjoint f)
    (hdest : h.Within dest n) (hsrc : h.Within src n)
    (hdisjoint : ∀ i < n.toNat, ∀ j < n.toNat, shift src i ≠ shift dest j)
    : (∀ m, h.Copied m (h.pgasMemcpyOverrideHandler link m dest src n) dest src n)
        ↔
      n = 0 ∨ h.IsLocal dest ∨ h.IsLocal src := by
  have hreaches : h.CopyReaches link dest src := ⟨fun _ => hlink _, fun _ _ => hlink _⟩
  simp only [memcpy_of_reaches horig hdisjoint hreaches, hdest.copied_iff]
  by_cases hlocal : h.IsLocal dest
  . simp only [hlocal, true_or, or_true, iff_true]
    intro m i hi
    exact hsrc.fetched_eq hlocal hi
  . simp only [fetched, hlocal, false_and, if_false]
    rw [forall_loc_eq_held_iff hsrc]
    simp

theorem memmove_copied_iff (horig : ∀ f ∈ h.origMemmove, Copies f) (hdest : h.Within dest n)
    (hsrc : h.Within src n)
    : (∀ m, h.Copied m (h.pgasMemmoveOverrideHandler link m dest src n) dest src n)
        ↔
      n = 0 ∨ h.IsLocal src := by
  rw [← forall_loc_eq_held_iff hsrc]
  simp only [memmove_of_connected horig hdest hsrc hlink, hdest.copied_iff]

end Connected

theorem overrides_copied_iff (h : Hooks) (link : Link)
    (hlink : ∀ node, link.connected node = true) (dest src n : UInt64)
    (hmemcpy : ∀ f ∈ h.origMemcpy, CopiesDisjoint f) (hmemmove : ∀ f ∈ h.origMemmove, Copies f)
    (hdest : h.Within dest n) (hsrc : h.Within src n)
    : ((∀ i < n.toNat, ∀ j < n.toNat, shift src i ≠ shift dest j) →
        ((∀ m, h.Copied m (h.pgasMemcpyOverrideHandler link m dest src n) dest src n)
          ↔ n = 0 ∨ h.IsLocal dest ∨ h.IsLocal src))
        ∧
      ((∀ m, h.Copied m (h.pgasMemmoveOverrideHandler link m dest src n) dest src n)
        ↔ n = 0 ∨ h.IsLocal src) := by
  constructor
  . intro hdisjoint
    exact memcpy_copied_iff hlink hmemcpy hdest hsrc hdisjoint
  . exact memmove_copied_iff hlink hmemmove hdest hsrc

def threeNodes : Hooks where
  config := { base := 0x1000, size := 48, numNodes := 3, localNodeId := 0 }
  useNodeLocalOffsets := true
  origMemcpy := none
  origMemmove := none

def allConnected : Link where
  connected := fun _ => true
  allocates := fun _ => true

theorem threeNodes_copied_toLocal : threeNodes.Within 0x1000 2 ∧ threeNodes.Within 0x1010 2
      ∧ ∀ m, threeNodes.Copied m
        (threeNodes.pgasMemcpyOverrideHandler allConnected m 0x1000 0x1010 2)
        0x1000 0x1010 2 := by
  have hdest : threeNodes.Within 0x1000 2 := ⟨by decide, by decide⟩
  have hsrc : threeNodes.Within 0x1010 2 := ⟨by decide, by decide⟩
  have hiff := overrides_copied_iff threeNodes allConnected (fun _ => rfl) 0x1000 0x1010 2
    (by simp [threeNodes]) (by simp [threeNodes]) hdest hsrc
  exact ⟨hdest, hsrc, (hiff.1 (by decide)).mpr (.inr (.inl (by decide)))⟩

theorem threeNodes_not_copied
    : ¬ (∀ m, threeNodes.Copied m
        (threeNodes.pgasMemcpyOverrideHandler allConnected m 0x1010 0x1020 1)
        0x1010 0x1020 1) ∧
      ¬ (∀ m, threeNodes.Copied m
        (threeNodes.pgasMemmoveOverrideHandler allConnected m 0x1000 0x1020 1)
        0x1000 0x1020 1) := by
  have hne : (0 : UInt8) ≠ 1 := by decide
  constructor
  . intro hall
    exact hne ((hall ⟨fun _ => 0, fun _ _ => 1⟩).bytes 0 (by decide))
  . intro hall
    exact hne ((hall ⟨fun _ => 0, fun _ _ => 1⟩).bytes 0 (by decide))

end Hooks

end Bpftime.Pgas
