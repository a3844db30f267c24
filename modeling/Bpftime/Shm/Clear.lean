import Mathlib.Algebra.Group.Nat.Defs
import Bpftime.Shm.Containers.Lemmas
import Bpftime.Shm.Links

namespace Bpftime.Shm

namespace BpftimeShm

def visitLink (clear : BpftimeShm → Int32 → Option BpftimeShm) (p : BpfLinkHandler → Bool)
    (s : BpftimeShm) (i : Nat) : Option BpftimeShm :=
  match s.handlers[i]? with
  | some (.link h) => if p h then clear s (Int32.ofNat i) else some s
  | _ => some s

def visitLinks (clear : BpftimeShm → Int32 → Option BpftimeShm) (p : BpfLinkHandler → Bool)
    (s : BpftimeShm) : Option BpftimeShm :=
  (List.range s.handlers.length).foldlM (visitLink clear p) s

def clearIdAtWithin (env : Env) : Nat → BpftimeShm → Int32 → Option BpftimeShm
  | 0, _, _ => none
  | depth + 1, s, fd =>
    match s.slot? fd with
    | none => some s
    | some handler =>
      let released :=
        match handler with
        | .map h => (h.mapFree env s.segment).map fun memory => { s with segment := memory }
        | .perfEvent _ => s.visitLinks (clearIdAtWithin env depth) fun h => h.attachTargetId == fd
        | .prog _ => s.visitLinks (clearIdAtWithin env depth) fun h => h.progId == fd
        | _ => some s
      released.map fun s => s.setSlot fd .unused

variable {env : Env} {s s' : BpftimeShm} {fd : Int32} {handler : Handler}

def LinksInRange (s : BpftimeShm) (p : BpfLinkHandler → Bool) : Prop :=
  ∀ i l, s.handlers[i]? = some (.link l) → p l = true → i < 2 ^ 31

variable {i depth : Nat} {p : BpfLinkHandler → Bool}

theorem slot?_ofNat (hi : i < 2 ^ 31) : s.slot? (Int32.ofNat i) = s.handlers[i]? := by
  unfold slot?
  rw [Int32.toNatClampNeg_ofNat_of_lt hi]
  rw [if_neg]
  rw [Int32.lt_iff_toInt_lt, Int32.toInt_ofNat_of_lt hi]
  simp

theorem clearIdAtWithin_link {l : BpfLinkHandler} (hi : i < 2 ^ 31)
    (hslot : s.handlers[i]? = some (.link l))
    : s.clearIdAtWithin env (depth + 1) (Int32.ofNat i)
        =
      some { s with handlers := s.handlers.set i .unused } := by
  unfold clearIdAtWithin
  rw [slot?_ofNat hi, hslot]
  simp only [Option.map_some, setSlot]
  rw [Int32.toNatClampNeg_ofNat_of_lt hi]

theorem visitLink_eq (hrange : s.LinksInRange p)
    : s.visitLink (clearIdAtWithin env (depth + 1)) p i = some (clearLinkAt p s i) := by
  unfold visitLink clearLinkAt
  cases hslot : s.handlers[i]? with
  | none => rfl
  | some h =>
    cases h with
    | link l =>
      dsimp only
      split
      . next hp => exact clearIdAtWithin_link (hrange i l hslot hp) hslot
      . rfl
    | _ => rfl

theorem unlinked_eq_link {h : Handler} {l : BpfLinkHandler}
    : unlinked p h = .link l ↔ h = .link l ∧ p l = false := by
  cases h with
  | link l' =>
    simp only [unlinked, Handler.link.injEq]
    cases hp : p l' with
    | true =>
      simp only [↓reduceIte, reduceCtorEq, false_iff, not_and]
      rintro rfl
      simp [hp]
    | false =>
      simp only [Bool.false_eq_true, ↓reduceIte, Handler.link.injEq, iff_self_and]
      rintro rfl
      exact hp
  | _ => simp [unlinked]

theorem LinksInRange.clearLinkAt (hrange : s.LinksInRange p) (i : Nat)
    : (clearLinkAt p s i).LinksInRange p := by
  intro j l hslot hp
  rw [getElem?_clearLinkAt] at hslot
  split at hslot
  . rcases Option.map_eq_some_iff.mp hslot with ⟨h, hj, hlink⟩
    rw [(unlinked_eq_link.mp hlink).1] at hj
    exact hrange j l hj hp
  . exact hrange j l hslot hp

theorem foldlM_visitLink (slots : List Nat) (hrange : s.LinksInRange p)
    : slots.foldlM (visitLink (clearIdAtWithin env (depth + 1)) p) s
        =
      some (slots.foldl (BpftimeShm.clearLinkAt p) s) := by
  induction slots generalizing s with
  | nil => rfl
  | cons i slots ih =>
    rw [List.foldlM_cons, visitLink_eq hrange]
    exact ih (hrange.clearLinkAt i)

theorem visitLinks_eq (depth : Nat) (hrange : s.LinksInRange p)
    : s.visitLinks (clearIdAtWithin env (depth + 1)) p = some (s.clearLinks p) := by
  exact foldlM_visitLink _ hrange

theorem clearIdAtWithin_eq (depth : Nat) (hslot : s.slot? fd = some handler)
    (hrange : s.LinksInRange (refersTo fd handler))
    : s.clearIdAtWithin env (depth + 2) fd = s.clearIdAt env fd := by
  unfold clearIdAtWithin clearIdAt
  rw [hslot]
  dsimp only
  cases handler with
  | map h =>
    dsimp only [release]
    cases h.mapFree env s.segment <;> rfl
  | perfEvent _ | prog _ => exact congrArg _ (visitLinks_eq depth hrange)
  | _ => rfl

theorem getElem?_clearIdAtWithin (hi : 2 ^ 31 ≤ i) (h : s.clearIdAtWithin env depth fd = some s')
    : s'.handlers[i]? = s.handlers[i]? := by
  induction depth generalizing s s' fd with
  | zero => simp [clearIdAtWithin] at h
  | succ depth ih =>
    have hvisit {p : BpfLinkHandler → Bool} (slots : List Nat) : ∀ {t t' : BpftimeShm},
        slots.foldlM (visitLink (clearIdAtWithin env depth) p) t = some t' →
          t'.handlers[i]? = t.handlers[i]? := by
      induction slots with
      | nil =>
        intro t t' ht
        cases ht
        rfl
      | cons j slots ihslots =>
        intro t t' ht
        rw [List.foldlM_cons] at ht
        rcases Option.bind_eq_some_iff.mp ht with ⟨u, hu, hrest⟩
        rw [ihslots hrest]
        unfold visitLink at hu
        split at hu
        . split at hu
          . exact ih hu
          . cases hu
            rfl
        . cases hu
          rfl
    unfold clearIdAtWithin at h
    split at h
    . cases h
      rfl
    . rcases Option.map_eq_some_iff.mp h with ⟨t, ht, rfl⟩
      have hset : (t.setSlot fd .unused).handlers[i]? = t.handlers[i]? := by
        unfold setSlot
        dsimp only
        rw [List.getElem?_set_ne]
        have := Int32.toNatClampNeg_lt fd
        omega
      rw [hset]
      split at ht
      . rcases Option.map_eq_some_iff.mp ht with ⟨memory, -, rfl⟩
        rfl
      . exact hvisit _ ht
      . exact hvisit _ ht
      . cases ht
        rfl

/-- The slot and the links to it are cleared, and nothing else. -/
structure ClearsOnly (s : BpftimeShm) (fd : Int32) (handler : Handler) (s' : BpftimeShm)
    : Prop where
  self : s'.slot? fd = some .unused
  other : ∀ i, i ≠ fd.toNatClampNeg →
    s'.handlers[i]? = s.handlers[i]?.map (unlinked (refersTo fd handler))

theorem clearIdAt_clearsOnly (hslot : s.slot? fd = some handler) (h : s.clearIdAt env fd = some s')
    : s.ClearsOnly fd handler s' := by
  constructor
  . rw [slot?_clearIdAt hslot h, if_pos rfl]
  . intro i hi
    unfold clearIdAt at h
    rw [hslot] at h
    rcases Option.map_eq_some_iff.mp h with ⟨t, hrelease, rfl⟩
    unfold setSlot
    dsimp only
    rw [List.getElem?_set_ne (fun heq => hi heq.symm)]
    exact (release_spec hrelease).1 i

def FreesInTable (env : Env) (handler : Handler) : Prop :=
  ∀ h, handler = .map h → h.freesContainer env = true ∨ h.hasOps = true

theorem linksInRange_of_clearsOnly
    (h : s.clearIdAtWithin env depth fd = some s') (hclears : s.ClearsOnly fd handler s')
    : s.LinksInRange (refersTo fd handler) := by
  intro i l hi hp
  by_contra hge
  have hfd := Int32.toNatClampNeg_lt fd
  have hkept := getElem?_clearIdAtWithin (Nat.le_of_not_lt hge) h
  rw [hclears.other i (by omega), hi] at hkept
  simp [unlinked, hp] at hkept

theorem freesInTable_of_defined (hslot : s.slot? fd = some handler)
    (h : s.clearIdAtWithin env depth fd = some s')
    : FreesInTable env handler := by
  rintro hm rfl
  apply (clearIdAt_defined env hslot).mp _ hm rfl
  cases depth with
  | zero => simp [clearIdAtWithin] at h
  | succ depth =>
    unfold clearIdAtWithin at h
    unfold clearIdAt release
    rw [hslot] at h ⊢
    rcases Option.map_eq_some_iff.mp h with ⟨t, ht, rfl⟩
    rcases Option.map_eq_some_iff.mp ht with ⟨memory, hfree, rfl⟩
    dsimp only
    rw [hfree]
    exact ⟨_, rfl⟩

theorem clearIdAtWithin_clearsOnly_iff (env : Env) (s : BpftimeShm) (fd : Int32) (handler : Handler)
    (hslot : s.slot? fd = some handler)
    : (∃ s', (∀ depth, s.clearIdAtWithin env (depth + 2) fd = some s') ∧
          s.ClearsOnly fd handler s')
        ↔
      FreesInTable env handler ∧ s.LinksInRange (refersTo fd handler) := by
  constructor
  . intro ⟨s', h, hclears⟩
    exact ⟨freesInTable_of_defined hslot (h 0), linksInRange_of_clearsOnly (h 0) hclears⟩
  . intro ⟨htable, hrange⟩
    rcases (clearIdAt_defined env hslot).mpr htable with ⟨s', hs'⟩
    refine ⟨s', ?_, clearIdAt_clearsOnly hslot hs'⟩
    intro depth
    rw [clearIdAtWithin_eq depth hslot hrange]
    exact hs'

def progWithLink : BpftimeShm where
  handlers := [.prog ⟨0, [], []⟩, .link ⟨0, 2, none⟩, .unused, .link ⟨5, 0, none⟩]
  segment := []

theorem clearsOnly_progWithLink
    : ∃ s', (∀ depth, progWithLink.clearIdAtWithin plainEnv (depth + 2) 0 = some s') ∧
        progWithLink.ClearsOnly 0 (.prog ⟨0, [], []⟩) s' := by
  apply (clearIdAtWithin_clearsOnly_iff plainEnv progWithLink 0 (.prog ⟨0, [], []⟩) (by decide)).mpr
  constructor
  . intro h hmap
    simp at hmap
  . intro i l hslot _
    have hlt : i < 4 := (List.getElem?_eq_some_iff.mp hslot).1
    omega

def outsideOps : BpfMapHandler where
  name := [109]
  attr := { type := 5000 }

theorem not_clearsOnly_outsideOps
    : (construct 1).call plainEnv (.addBpfMap 9 0 outsideOps.name outsideOps.attr)
          = some (.ret 0 none, ⟨[.map outsideOps], []⟩) ∧
        ¬ ∃ s', (∀ depth, clearIdAtWithin plainEnv (depth + 2) ⟨[.map outsideOps], []⟩ 0 = some s') ∧
          ClearsOnly ⟨[.map outsideOps], []⟩ 0 (.map outsideOps) s' := by
  constructor
  . rfl
  . intro ⟨s', h, _⟩
    have hundefined : clearIdAtWithin plainEnv 2 ⟨[.map outsideOps], []⟩ 0 = none := by
      rfl
    rw [h 0] at hundefined
    simp at hundefined

end BpftimeShm

end Bpftime.Shm
