import Bpftime.BpfMap.HashMap.Fix.Status
import Bpftime.Shm.Containers.Invariant
import Bpftime.Shm.Links

/-!
This module contains when an operation on one map leaves the others alone.
-/

namespace Bpftime.Shm

inductive MapOp where
  | create (fake fd : Int32) (name : CString) (attr : BpfMapAttr)
  | close (fd : Int32)

namespace MapOp

def fd : MapOp → Int32
  | create fake fd _ _ => BpftimeShm.orFake fd fake
  | close fd => fd

def op : MapOp → Op
  | create fake fd name attr => .addBpfMap fake fd name attr
  | close fd => .closeFd fd

end MapOp

namespace ShmState

variable {α ε ρ : Type} {env : Env} {ops : MapOps α ε ρ} {s s' : ShmState α ε} {fd : Int32}

def view (env : Env) (s : ShmState α ε) (fd : Int32) (h : BpfMapHandler)
    : Option (NamedHeap.Object CString α) × Option ε :=
  match h.target env with
  | .container => (s.deref fd, none)
  | .kernel => (s.deref fd, some (s.ext (.kernel h.attr.kernelBpfMapId)))
  | .registered => (none, some (s.ext (.registered h.attr.type)))

/-- No other map changes. -/
def Isolated (env : Env) (s : ShmState α ε) (fd : Int32) (s' : ShmState α ε) : Prop :=
  ∀ fd' h', fd' ≠ fd → s.shm.slot? fd' = some (.map h') →
    s'.shm.slot? fd' = some (.map h') ∧ s'.view env fd' h' = s.view env fd' h'

def InBounds (env : Env) (s : ShmState α ε) : MapOp → Prop
  | .create fake fd name attr =>
    (∃ handler, s.shm.slot? (BpftimeShm.orFake fd fake) = some handler)
      ∧ s.FreeDefined env (BpftimeShm.orFake fd fake)
      ∧ InitDefined env ⟨name, attr⟩
  | .close fd => s.FreeDefined env fd

def extAfter (env : Env) (ops : MapOps α ε ρ) (s : ShmState α ε) : MapOp → Extern → ε
  | .create fake fd name attr =>
    extInit env ops (s.extFreed env ops (BpftimeShm.orFake fd fake)) ⟨name, attr⟩
  | .close fd => s.extFreed env ops fd

/-- The operation touches nothing that another map uses. -/
structure Harmless (env : Env) (ops : MapOps α ε ρ) (s : ShmState α ε) (op : MapOp) : Prop where
  inBounds : s.InBounds env op
  /-- No other map has its container under the name that is destroyed. -/
  names : ∀ h, s.shm.slot? op.fd = some (.map h) → h.freesContainer env = true →
    ∀ fd' h', fd' ≠ op.fd → s.shm.slot? fd' = some (.map h') → h'.name = h.name →
      s.deref fd' = none
  /-- No other map uses what the registered operations change. -/
  registered : ∀ fd' h', fd' ≠ op.fd → s.shm.slot? fd' = some (.map h') →
    h'.target env = .registered →
      s.extAfter env ops op (.registered h'.attr.type) = s.ext (.registered h'.attr.type)

theorem extFreed_kernel (fd : Int32) (id : UInt32)
    : s.extFreed env ops fd (.kernel id) = s.ext (.kernel id) := by
  by_cases hmap : ∃ h, s.shm.slot? fd = some (.map h)
  . rcases hmap with ⟨h, hslot⟩
    rw [extFreed_of_map hslot]
    unfold mapFree
    split
    . rfl
    . simp
  . rw [extFreed_of_not_map (not_exists.mp hmap)]

theorem extAfter_kernel (op : MapOp) (id : UInt32)
    : s.extAfter env ops op (.kernel id) = s.ext (.kernel id) := by
  cases op with
  | create fake fd name attr =>
    simp only [extAfter, extInit]
    split
    . rw [Function.update_of_ne (by simp), extFreed_kernel]
    . rw [extFreed_kernel]
  | close fd => exact extFreed_kernel fd id

structure After (env : Env) (ops : MapOps α ε ρ) (s : ShmState α ε) (op : MapOp)
    (s' : ShmState α ε) : Prop where
  slot_other : ∀ fd' h', fd' ≠ op.fd →
    (s'.shm.slot? fd' = some (.map h') ↔ s.shm.slot? fd' = some (.map h'))
  deref_other : ∀ fd', fd' ≠ op.fd →
    s'.deref fd' = (s.deref fd').filter (fun o => s.freedName env op.fd ≠ some o.name)
  ext_eq : s'.ext = s.extAfter env ops op

theorem after_close (hclear : s.clearIdAt env ops fd = some s')
    : After env ops s (.close fd) s' := by
  cases hslot : s.shm.slot? fd with
  | none =>
    have hnot : ∀ h, s.shm.slot? fd ≠ some (.map h) := by simp [hslot]
    rw [clearIdAt_of_outside hslot] at hclear
    cases hclear
    refine ⟨fun _ _ _ => Iff.rfl, ?_, (extFreed_of_not_map hnot).symm⟩
    intro fd' _
    change _ = (s.deref fd').filter (fun o => s.freedName env fd ≠ some o.name)
    rw [freedName_of_not_map hnot]
    cases s.deref fd' <;> rfl
  | some handler =>
    have hc := clearIdAt_cleared hslot hclear
    exact ⟨hc.slot_other, hc.deref_other, hc.ext_eq⟩

theorem Inv.after_create {fake : Int32} {name : CString} {attr : BpfMapAttr} {o : Outcome}
    (hinv : Inv env s)
    (hrep : s.replaceByMap env ops (BpftimeShm.orFake fd fake) ⟨name, attr⟩ = some (o, s'))
    : After env ops s (.create fake fd name attr) s' := by
  rcases replaceByMap_steps hrep with ⟨t, hc, hm⟩
  refine ⟨?_, ?_, ?_⟩
  . intro fd' h' hne
    rw [hm.slot_other fd' hne]
    exact hc.slot_other fd' h' hne
  . intro fd' hne
    rw [hm.deref_other (hinv.cleared hc) hne]
    exact hc.deref_other fd' hne
  . rw [hm.ext_eq, hc.ext_eq]
    rfl

theorem Inv.after {op : MapOp} (hinv : Inv env s) (hstep : s.step env ops (.table op.op) = some s')
    : After env ops s op s' := by
  rcases Option.map_eq_some_iff.mp hstep with ⟨⟨o, t⟩, hcall, rfl⟩
  cases op with
  | create fake fd name attr => exact hinv.after_create hcall
  | close fd =>
    rcases Option.map_eq_some_iff.mp hcall with ⟨t', hclear, heq⟩
    cases heq
    exact after_close hclear

theorem freeDefined_of_not_map (hslot : ∀ h, s.shm.slot? fd ≠ some (.map h))
    : s.FreeDefined env fd :=
  fun h heq => absurd heq (hslot h)

theorem replaceByMap_defined_iff {h : BpfMapHandler} : (∃ r, s.replaceByMap env ops fd h = some r)
        ↔
      (∃ handler, s.shm.slot? fd = some handler) ∧ s.FreeDefined env fd ∧ InitDefined env h := by
  cases hslot : s.shm.slot? fd with
  | none => simp [replaceByMap, hslot]
  | some handler =>
    rw [replaceByMap_eq hslot, ← clearIdAt_defined ops hslot]
    cases hc : s.clearIdAt env ops fd with
    | none => simp
    | some t =>
      simp only [Option.bind_some, Option.some.injEq, exists_eq', true_and]
      exact setMap_defined (clearIdAt_cleared hslot hc).slot_self

theorem step_defined_iff (op : MapOp)
    : (∃ s', s.step env ops (.table op.op) = some s') ↔ s.InBounds env op := by
  have hcall : (∃ s', s.step env ops (.table op.op) = some s')
      ↔ ∃ r, s.call env ops op.op = some r := by
    constructor
    . rintro ⟨s', hstep⟩
      rcases Option.map_eq_some_iff.mp hstep with ⟨r, hr, -⟩
      exact ⟨r, hr⟩
    . rintro ⟨r, hr⟩
      exact ⟨r.2, Option.map_eq_some_iff.mpr ⟨r, hr, rfl⟩⟩
  rw [hcall]
  cases op with
  | create fake fd name attr => exact replaceByMap_defined_iff
  | close fd =>
    have hclose : (∃ r, s.call env ops (MapOp.close fd).op = some r)
        ↔ ∃ t, s.clearIdAt env ops fd = some t := by
      simp only [MapOp.op, call]
      cases s.clearIdAt env ops fd <;> simp
    rw [hclose]
    cases hslot : s.shm.slot? fd with
    | none =>
      rw [clearIdAt_of_outside hslot]
      simp only [Option.some.injEq, exists_eq', true_iff]
      exact freeDefined_of_not_map (by simp [hslot])
    | some handler => exact clearIdAt_defined ops hslot

theorem freedName_eq_some_iff {name : CString} : s.freedName env fd = some name
        ↔
      ∃ h, s.shm.slot? fd = some (.map h) ∧ h.freesContainer env = true
        ∧ h.getContainerName = name := by
  constructor
  . intro hfreed
    unfold freedName at hfreed
    split at hfreed
    . next h hslot =>
      split at hfreed
      . next hfrees => exact ⟨h, hslot, hfrees, Option.some.inj hfreed⟩
      . simp at hfreed
    . simp at hfreed
  . rintro ⟨h, hslot, hfrees, rfl⟩
    rw [freedName_of_map hslot, if_pos hfrees]

theorem Inv.freedName_iff {fd' : Int32} {h' : BpfMapHandler} {o : NamedHeap.Object CString α}
    (hinv : Inv env s) (hslot' : s.shm.slot? fd' = some (.map h')) (hderef : s.deref fd' = some o)
    : s.freedName env fd = some o.name
        ↔
      ∃ h, s.shm.slot? fd = some (.map h) ∧ h.freesContainer env = true ∧ h'.name = h.name := by
  rw [freedName_eq_some_iff, (hinv.container fd' h' o hslot' hderef).1]
  simp only [BpfMapHandler.getContainerName_inj, eq_comm]

theorem After.deref_eq_iff {op : MapOp} {fd' : Int32} (hafter : After env ops s op s')
    (hne : fd' ≠ op.fd)
    : s'.deref fd' = s.deref fd'
        ↔
      ∀ o, s.deref fd' = some o → s.freedName env op.fd ≠ some o.name := by
  rw [hafter.deref_other fd' hne]
  cases s.deref fd' with
  | none => simp
  | some o => simp [Option.filter_some]

theorem Inv.deref_of_registered {h : BpfMapHandler} (hinv : Inv env s)
    (hslot : s.shm.slot? fd = some (.map h)) (htarget : h.target env = .registered)
    : s.deref fd = none := by
  cases hderef : s.deref fd with
  | none => rfl
  | some o =>
    have hkind := (hinv.container fd h o hslot hderef).2
    exact absurd htarget (BpfMapHandler.target_ne_registered hkind)

theorem After.view_eq_iff {op : MapOp} {fd' : Int32} {h' : BpfMapHandler}
    (hafter : After env ops s op s') (hinv : Inv env s) (hne : fd' ≠ op.fd)
    (hslot' : s.shm.slot? fd' = some (.map h'))
    : s'.view env fd' h' = s.view env fd' h'
        ↔
      s'.deref fd' = s.deref fd'
        ∧ (h'.target env = .registered →
          s.extAfter env ops op (.registered h'.attr.type) = s.ext (.registered h'.attr.type)) := by
  unfold view
  cases ht : h'.target env with
  | container => simp
  | kernel => simp [hafter.ext_eq, extAfter_kernel]
  | registered =>
    rw [hafter.deref_other fd' hne, hinv.deref_of_registered hslot' ht]
    simp [hafter.ext_eq]

theorem Inv.isolated_iff {op : MapOp} (hinv : Inv env s) (hafter : After env ops s op s')
    : Isolated env s op.fd s'
        ↔
      (∀ h, s.shm.slot? op.fd = some (.map h) → h.freesContainer env = true →
        ∀ fd' h', fd' ≠ op.fd → s.shm.slot? fd' = some (.map h') → h'.name = h.name →
          s.deref fd' = none)
      ∧ (∀ fd' h', fd' ≠ op.fd → s.shm.slot? fd' = some (.map h') → h'.target env = .registered →
          s.extAfter env ops op (.registered h'.attr.type) = s.ext (.registered h'.attr.type)) := by
  constructor
  . intro hiso
    have hview {fd' : Int32} {h' : BpfMapHandler} (hne : fd' ≠ op.fd)
        (hslot' : s.shm.slot? fd' = some (.map h')) :=
      (hafter.view_eq_iff hinv hne hslot').mp (hiso fd' h' hne hslot').2
    constructor
    . intro h hslot hfrees fd' h' hne hslot' hname
      cases hderef : s.deref fd' with
      | none => rfl
      | some o =>
        have hkept := (hafter.deref_eq_iff hne).mp (hview hne hslot').1 o hderef
        exact absurd ((hinv.freedName_iff hslot' hderef).mpr ⟨h, hslot, hfrees, hname⟩) hkept
    . intro fd' h' hne hslot'
      exact (hview hne hslot').2
  . rintro ⟨hnames, hregistered⟩ fd' h' hne hslot'
    refine ⟨(hafter.slot_other fd' h' hne).mpr hslot', ?_⟩
    apply (hafter.view_eq_iff hinv hne hslot').mpr
    refine ⟨?_, hregistered fd' h' hne hslot'⟩
    apply (hafter.deref_eq_iff hne).mpr
    intro o hderef hfreed
    rcases (hinv.freedName_iff hslot' hderef).mp hfreed with ⟨h, hslot, hfrees, hname⟩
    have hnone := hnames h hslot hfrees fd' h' hne hslot' hname
    simp [hderef] at hnone

theorem isolated_step_iff (env : Env) (ops : MapOps α ε ρ) (maxFdCount : Nat) (ext : Extern → ε)
    (history : List RunOp) (s : ShmState α ε) (op : MapOp)
    (hrun : Run.Exec (step env ops) (fun _ _ => True) (construct maxFdCount ext) history s)
    : (∃ s', s.step env ops (.table op.op) = some s' ∧ Isolated env s op.fd s')
        ↔
      s.Harmless env ops op := by
  have hinv : Inv env s := inv_run hrun
  constructor
  . rintro ⟨s', hstep, hiso⟩
    rcases (hinv.isolated_iff (hinv.after hstep)).mp hiso with ⟨hnames, hregistered⟩
    exact ⟨(step_defined_iff op).mp ⟨s', hstep⟩, hnames, hregistered⟩
  . intro hharmless
    rcases (step_defined_iff op).mpr hharmless.inBounds with ⟨s', hstep⟩
    exact ⟨s', hstep,
      (hinv.isolated_iff (hinv.after hstep)).mpr ⟨hharmless.names, hharmless.registered⟩⟩

def bytesAt (n : Nat) (bytes : List UInt8) : Vector UInt8 n := Vector.ofFn fun i => bytes.getD i 0

def hashOps : MapOps ((p : HashMap.Params) × HashMap.FixSizeHashMapImpl p) Unit
    (Int × Option (List UInt8)) where
  construct attr :=
    let sizes : HashMap.Sizes :=
      ⟨attr.maxEnts.toNat, attr.keySize.toNat, attr.valueSize.toNat⟩
    if fits : HashMap.nextPrime sizes.numBuckets * sizes.elemSize < 2 ^ 64 then
      ⟨⟨sizes, fits⟩, .construct _⟩
    else
      ⟨⟨⟨0, 0, 0⟩, by decide⟩, .construct _⟩
  exec _ cmd m :=
    match cmd with
    | .lookup key _ =>
      ((0, (m.2.mapImpl.valueOf (bytesAt m.1.keySize key)).map Vector.toList), m)
    | .update key value flags _ =>
      let (res, impl) :=
        m.2.elemUpdate (bytesAt m.1.keySize key) (bytesAt m.1.valueSize value) flags
      ((res, none), ⟨m.1, impl⟩)
    | .delete key _ =>
      let (res, impl) := m.2.elemDelete (bytesAt m.1.keySize key)
      ((res, none), ⟨m.1, impl⟩)
  outside _ _ e := ((0, none), e)
  allocMap _ _ _ e := e
  mapFree _ e := e

def hashAttr : BpfMapAttr := { type := 1, keySize := 1, valueSize := 1, maxEnts := 2 }

def sameName : List RunOp :=
  [.table (.addBpfMap 9 0 [109] hashAttr), .table (.addBpfMap 9 1 [109] hashAttr)]

def otherName : List RunOp :=
  [.table (.addBpfMap 9 0 [109] hashAttr), .table (.addBpfMap 9 1 [110] hashAttr)]

def startState : ShmState ((p : HashMap.Params) × HashMap.FixSizeHashMapImpl p) Unit :=
  construct 4 fun _ => ()

theorem isolated_step_iff_otherName
    : ∃ s, Run.Exec (step BpftimeShm.plainEnv hashOps) (fun _ _ => True) startState otherName s
        ∧ ((∃ s', s.step BpftimeShm.plainEnv hashOps (.table (MapOp.close 1).op) = some s'
              ∧ Isolated BpftimeShm.plainEnv s (MapOp.close 1).fd s')
            ↔
          s.Harmless BpftimeShm.plainEnv hashOps (.close 1)) := by
  have hdefined : (otherName.foldlM (step BpftimeShm.plainEnv hashOps) startState).isSome := by
    decide +kernel
  rcases Option.isSome_iff_exists.mp hdefined with ⟨s, hs⟩
  have hrun := Run.exec_of_foldlM hs
  exact ⟨s, hrun, isolated_step_iff _ _ _ _ _ s (.close 1) hrun⟩

theorem not_isolated_sameName
    : ∃ s, Run.Exec (step BpftimeShm.plainEnv hashOps) (fun _ _ => True) startState sameName s
        ∧ ¬ ∃ s', s.step BpftimeShm.plainEnv hashOps (.table (MapOp.close 1).op) = some s'
            ∧ Isolated BpftimeShm.plainEnv s (MapOp.close 1).fd s' := by
  -- the map at 0, whether it has its container before, and whether it has it after
  have heval : ((sameName.foldlM (step BpftimeShm.plainEnv hashOps) startState).bind fun s =>
      (s.step BpftimeShm.plainEnv hashOps (.table (MapOp.close 1).op)).map fun s' =>
        (s.shm.slot? 0, (s.view BpftimeShm.plainEnv 0 ⟨[109], hashAttr⟩).1.isSome,
          (s'.view BpftimeShm.plainEnv 0 ⟨[109], hashAttr⟩).1.isSome))
      = some (some (.map ⟨[109], hashAttr⟩), true, false) := by
    decide +kernel
  rcases Option.bind_eq_some_iff.mp heval with ⟨s, hs, heval⟩
  rcases Option.map_eq_some_iff.mp heval with ⟨t, ht, heq⟩
  simp only [Prod.mk.injEq] at heq
  rcases heq with ⟨hslot, hbefore, hafter⟩
  refine ⟨s, Run.exec_of_foldlM hs, ?_⟩
  rintro ⟨s', hstep, hiso⟩
  rw [ht] at hstep
  cases hstep
  have hview := (hiso 0 ⟨[109], hashAttr⟩ (by decide) hslot).2
  rw [hview, hbefore] at hafter
  simp at hafter

end ShmState

end Bpftime.Shm
