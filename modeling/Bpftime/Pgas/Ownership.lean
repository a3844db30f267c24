import Bpftime.Pgas.Copy

namespace Bpftime.Pgas

open WordMem

def Sets (f : SetFn) : Prop :=
  ∀ m s c n, f m s c n = put m s (fun _ => setByte c) n.toNat

namespace Hooks

variable {h : Hooks} {link : Link} {m m' : Memory} {dest src s n a : UInt64} {c : Int32}

/-- The owner of each address has its byte, and nothing else changed. -/
structure Delivered (h : Hooks) (m m' : Memory) (dest n : UInt64) (bytes : ℕ → UInt8) : Prop where
  bytes : ∀ i < n.toNat, h.held m' (shift dest i) = bytes i
  frameLoc : ∀ x, (∀ i < n.toNat, h.IsLocal (shift dest i) → x ≠ shift dest i) →
    m'.loc x = m.loc x
  frameNode : ∀ k x, (∀ i < n.toNat, ¬ h.IsLocal (shift dest i) → k = h.routeToNode (shift dest i) →
    x ≠ h.translateAddr (shift dest i) k) → m'.node k x = m.node k x

def OneOwner (h : Hooks) (dest n : UInt64) : Prop :=
  ∀ i < n.toNat, h.routeToNode (shift dest i) = h.routeToNode dest

theorem oneOwner_of_zero (hn : n = 0) : h.OneOwner dest n := by
  intro i hi
  rw [hn] at hi
  simp at hi

theorem toNat_pos (hn : ¬ n = 0) : 0 < n.toNat := by
  apply Nat.pos_of_ne_zero
  intro hzero
  exact hn (UInt64.toNat_inj.mp hzero)

theorem delivered_of_zero (hn : n = 0) (bytes : ℕ → UInt8) : h.Delivered m m dest n bytes := by
  subst hn
  constructor
  . intro i hi
    simp at hi
  . intro x _
    rfl
  . intro k x _
    rfl

theorem OneOwner.delivered (howner : h.OneOwner dest n) (bytes : ℕ → UInt8)
    : h.Delivered m (h.stored m dest n bytes) dest n bytes := by
  constructor
  . intro i hi
    exact held_stored (howner i hi) hi
  . intro x hx
    apply loc_stored
    intro hlocal i hi
    exact hx i hi ((isLocal_congr (howner i hi)).mpr hlocal)
  . intro k x hx
    apply node_stored howner
    intro hk hremote i hi
    exact hx i hi (mt (isLocal_congr (howner i hi)).mp hremote) (hk.trans (howner i hi).symm)

theorem held_stored_of_route_ne {i : ℕ} {bytes : ℕ → UInt8}
    (hroute : h.routeToNode (shift dest i) ≠ h.routeToNode dest)
    : h.held (h.stored m dest n bytes) (shift dest i) = h.held m (shift dest i) := by
  unfold stored
  split
  next hlocal =>
    have hremote : ¬ h.IsLocal (shift dest i) := by
      unfold IsLocal at hlocal ⊢
      rw [← hlocal]
      exact hroute
    unfold held
    rw [if_neg hremote, if_neg hremote]
  next =>
    unfold held
    dsimp only
    rw [Function.update_of_ne hroute]

theorem delivered_iff {f : Memory → Memory} {bytes : Memory → ℕ → UInt8} {reaches : Prop}
    (hreaches : reaches → ∀ m, f m = h.stored m dest n (bytes m)) (hnot : ¬ reaches → ∀ m, f m = m)
    (hdiffer : ∀ i < n.toNat, ∃ m, h.held m (shift dest i) ≠ bytes m i)
    : (∀ m, h.Delivered m (f m) dest n (bytes m)) ↔ n = 0 ∨ (h.OneOwner dest n ∧ reaches) := by
  by_cases hr : reaches
  . simp only [hreaches hr, hr, and_true]
    rw [or_iff_right_of_imp oneOwner_of_zero]
    constructor
    . intro hall i hi
      by_contra hroute
      obtain ⟨m, hm⟩ := hdiffer i hi
      rw [← held_stored_of_route_ne hroute] at hm
      exact hm ((hall m).bytes i hi)
    . intro howner m
      exact howner.delivered _
  . simp only [hnot hr, hr, and_false, or_false]
    constructor
    . intro hall
      by_contra hn
      obtain ⟨m, hm⟩ := hdiffer 0 (toNat_pos hn)
      exact hm ((hall m).bytes 0 (toNat_pos hn))
    . intro hn m
      exact delivered_of_zero hn _

theorem remoteWrite_of_not_connected (hremote : ¬ h.IsLocal dest)
    (hnot : ¬ link.connected (h.routeToNode dest) = true) (bytes : ℕ → UInt8)
    : h.remoteWrite link m (h.routeToNode dest) dest bytes n = m := by
  unfold IsLocal at hremote
  unfold remoteWrite
  rw [if_neg hremote, if_neg hnot]

section Memset

variable {origMemset : Option SetFn}

def SetReaches (h : Hooks) (link : Link) (s n : UInt64) : Prop :=
  link.connected (h.routeToNode s) = true ∧ (n ≤ 4096 ∨ link.allocates n = true)

theorem memset_of_local (horig : ∀ f ∈ origMemset, Sets f) (hlocal : h.IsLocal s)
    : h.pgasMemsetOverrideHandler link origMemset m s c n = h.stored m s n fun _ => setByte c := by
  unfold stored
  rw [if_pos hlocal]
  unfold IsLocal at hlocal
  unfold pgasMemsetOverrideHandler
  dsimp only
  rw [if_neg (by simp [hlocal])]
  split
  . next f => rw [horig f rfl m.loc s c n]
  . rw [fill_eq_put (Nat.le_of_lt n.toNat_lt)]

theorem memset_of_remote (hremote : ¬ h.IsLocal s)
    : h.pgasMemsetOverrideHandler link origMemset m s c n
        =
      h.pgasRemoteMemsetHandler link m s c n (h.routeToNode s) := by
  unfold IsLocal at hremote
  unfold pgasMemsetOverrideHandler
  dsimp only
  rw [if_pos (by simp [hremote])]

theorem remoteMemset_of_reaches (hremote : ¬ h.IsLocal s) (hreaches : h.SetReaches link s n)
    : h.pgasRemoteMemsetHandler link m s c n (h.routeToNode s)
        =
      h.stored m s n fun _ => setByte c := by
  unfold pgasRemoteMemsetHandler
  rw [remoteWrite_of_connected hremote hreaches.1]
  split
  . rfl
  . next hlarge => rw [if_pos (hreaches.2.resolve_left hlarge)]

theorem remoteMemset_of_not_reaches (hremote : ¬ h.IsLocal s) (hnot : ¬ h.SetReaches link s n)
    : h.pgasRemoteMemsetHandler link m s c n (h.routeToNode s) = m := by
  unfold SetReaches at hnot
  unfold pgasRemoteMemsetHandler
  by_cases hconnected : link.connected (h.routeToNode s) = true
  . simp only [hconnected, true_and, not_or] at hnot
    rw [if_neg hnot.1, if_neg hnot.2]
  . rw [remoteWrite_of_not_connected hremote hconnected]
    split
    . rfl
    . split <;> rfl

def uniform (b : UInt8) : Memory := ⟨fun _ => b, fun _ _ => b⟩

theorem held_uniform (h : Hooks) (b : UInt8) (a : UInt64) : h.held (uniform b) a = b := by
  unfold held uniform
  split <;> rfl

theorem add_one_ne (b : UInt8) : b + 1 ≠ b := by
  intro heq
  have hnat := congrArg UInt8.toNat heq
  have hlt := b.toNat_lt
  rw [UInt8.toNat_add, UInt8.toNat_one] at hnat
  omega

theorem memset_delivered_iff (horig : ∀ f ∈ origMemset, Sets f)
    : (∀ m, h.Delivered m (h.pgasMemsetOverrideHandler link origMemset m s c n) s n
          (fun _ => setByte c))
        ↔
      n = 0 ∨ (h.OneOwner s n ∧ (¬ h.IsLocal s → h.SetReaches link s n)) := by
  apply delivered_iff
  . intro hreaches m
    by_cases hlocal : h.IsLocal s
    . exact memset_of_local horig hlocal
    . rw [memset_of_remote hlocal]
      exact remoteMemset_of_reaches hlocal (hreaches hlocal)
  . intro hnot m
    obtain ⟨hremote, hnot⟩ := Classical.not_imp.mp hnot
    rw [memset_of_remote hremote]
    exact remoteMemset_of_not_reaches hremote hnot
  . intro i _
    refine ⟨uniform (setByte c + 1), ?_⟩
    rw [held_uniform]
    exact add_one_ne _

end Memset

section Memcpy

theorem memcpy_of_not_connected (hlocal : h.IsLocal dest) (hremote : ¬ h.IsLocal src)
    (hnot : ¬ link.connected (h.routeToNode src) = true)
    : h.pgasMemcpyOverrideHandler link m dest src n = m := by
  unfold IsLocal at hlocal hremote
  unfold pgasMemcpyOverrideHandler pgasRemoteMemcpyHandler remoteRead
  dsimp only
  rw [if_neg (not_not_intro hlocal), if_pos hremote, if_neg (by simp), if_neg hremote, if_neg hnot]

theorem memcpy_of_not_reaches (hnot : ¬ h.CopyReaches link dest src)
    : h.pgasMemcpyOverrideHandler link m dest src n = m := by
  unfold CopyReaches at hnot
  by_cases hdest : h.IsLocal dest
  . simp only [hdest, not_true_eq_false, false_implies, true_and, true_implies,
      Classical.not_imp] at hnot
    exact memcpy_of_not_connected hdest hnot.1 hnot.2
  . simp only [hdest, not_false_eq_true, true_implies, false_implies, and_true] at hnot
    rw [memcpy_of_remote_dest hdest]
    exact remoteWrite_of_not_connected hdest hnot _

variable (hdisjoint : ∀ i < n.toNat, ∀ j < n.toNat, shift src i ≠ shift dest j)

include hdisjoint

theorem place_ne {i : ℕ} (hi : i < n.toNat) (hremote : ¬ h.IsLocal src)
    (hremote' : ¬ h.IsLocal (shift dest i))
    (hroute : h.routeToNode (shift dest i) = h.routeToNode src)
    : h.translateAddr (shift dest i) (h.routeToNode src)
        ≠
      shift (h.translateAddr src (h.routeToNode src)) i := by
  intro heq
  apply hdisjoint i hi i hi
  have htranslate := translateAddr_remote hremote'
  rw [hroute] at htranslate
  rw [htranslate, translateAddr_remote hremote] at heq
  split at heq
  . unfold shift at heq ⊢
    grind
  . exact heq.symm

theorem exists_held_ne_fetched {i : ℕ} (hi : i < n.toNat)
    : ∃ m, h.held m (shift dest i) ≠ h.fetched m dest src i := by
  unfold fetched
  -- only the byte of the source is 0
  split
  next hremote =>
    refine ⟨⟨fun _ => 1, fun k x => if k = h.routeToNode src
      ∧ x = shift (h.translateAddr src (h.routeToNode src)) i then 0 else 1⟩, ?_⟩
    dsimp only
    rw [if_pos ⟨rfl, rfl⟩]
    unfold held
    split
    next => simp
    next hremote' =>
      dsimp only
      rw [if_neg]
      . simp
      . intro ⟨hnode, hplace⟩
        rw [hnode] at hplace
        exact place_ne hdisjoint hi hremote.2 hremote' hnode hplace
  next =>
    refine ⟨⟨fun x => if x = shift src i then 0 else 1, fun _ _ => 1⟩, ?_⟩
    dsimp only
    rw [if_pos rfl]
    unfold held
    split
    next =>
      dsimp only
      rw [if_neg fun heq => hdisjoint i hi i hi heq.symm]
      simp
    next => simp

theorem memcpy_delivered_iff (horig : ∀ f ∈ h.origMemcpy, CopiesDisjoint f)
    : (∀ m, h.Delivered m
        (h.pgasMemcpyOverrideHandler link m dest src n) dest n (h.fetched m dest src))
        ↔
      n = 0 ∨ (h.OneOwner dest n ∧ h.CopyReaches link dest src) := by
  apply delivered_iff
  . intro hreaches m
    exact memcpy_of_reaches horig hdisjoint hreaches
  . intro hnot m
    exact memcpy_of_not_reaches hnot
  . intro i hi
    exact exists_held_ne_fetched hdisjoint hi

end Memcpy

theorem overrides_delivered_iff (h : Hooks) (link : Link) (origMemset : Option SetFn)
    (hmemset : ∀ f ∈ origMemset, Sets f) (hmemcpy : ∀ f ∈ h.origMemcpy, CopiesDisjoint f)
    (dest src n : UInt64) (c : Int32)
    : ((∀ m, h.Delivered m (h.pgasMemsetOverrideHandler link origMemset m dest c n) dest n
            (fun _ => setByte c))
          ↔ n = 0 ∨ (h.OneOwner dest n ∧ (¬ h.IsLocal dest → h.SetReaches link dest n)))
        ∧
      ((∀ i < n.toNat, ∀ j < n.toNat, shift src i ≠ shift dest j) →
        ((∀ m, h.Delivered m
          (h.pgasMemcpyOverrideHandler link m dest src n) dest n (h.fetched m dest src))
          ↔ n = 0 ∨ (h.OneOwner dest n ∧ h.CopyReaches link dest src))) := by
  constructor
  . exact memset_delivered_iff hmemset
  . intro hdisjoint
    exact memcpy_delivered_iff hdisjoint hmemcpy

theorem threeNodes_delivered : (∀ m, threeNodes.Delivered m
          (threeNodes.pgasMemsetOverrideHandler allConnected none m 0x1010 7 2) 0x1010 2
          (fun _ => setByte 7)) ∧
        ∀ m, threeNodes.Delivered m
          (threeNodes.pgasMemcpyOverrideHandler allConnected m 0x1010 0 2) 0x1010 2
          (threeNodes.fetched m 0x1010 0) := by
  have howner : threeNodes.OneOwner 0x1010 2 := by
    unfold OneOwner
    decide
  have hiff := overrides_delivered_iff threeNodes allConnected none (by simp)
    (by simp [threeNodes]) 0x1010 0 2 7
  constructor
  . exact hiff.1.mpr (.inr ⟨howner, fun _ => ⟨rfl, .inr rfl⟩⟩)
  . exact (hiff.2 (by decide)).mpr (.inr ⟨howner, fun _ => rfl, fun _ _ => rfl⟩)

theorem threeNodes_not_delivered : ¬ (∀ m, threeNodes.Delivered m
          (threeNodes.pgasMemsetOverrideHandler allConnected none m 0x100f 7 2) 0x100f 2
          (fun _ => setByte 7)) ∧
        ¬ ∀ m, threeNodes.Delivered m
          (threeNodes.pgasMemcpyOverrideHandler allConnected m 0x101f 0 2) 0x101f 2
          (threeNodes.fetched m 0x101f 0) := by
  constructor
  . intro hall
    have hbyte := (hall ⟨fun _ => 0, fun _ _ => 1⟩).bytes 1 (by decide)
    exact absurd hbyte (by decide)
  . intro hall
    have hbyte := (hall ⟨fun _ => 0, fun _ _ => 1⟩).bytes 1 (by decide)
    exact absurd hbyte (by decide)

end Hooks

end Bpftime.Pgas
